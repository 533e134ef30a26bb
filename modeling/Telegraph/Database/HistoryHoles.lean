import Mathlib.Data.List.Basic
import Telegraph.Database.IndexSets
import Telegraph.Lib.Dictionary

/-!
# Holes in the History

For each conversation the database keeps an index set of the ids that have not been loaded. When
messages up to an id have been loaded, the ids between it and the next stored message become a hole;
when they are loaded later, they are taken out again. The ends of a hole are handed on inclusively
and used as a half-open range.

## Main results

* `mem_addLater`: what is recorded of the gap above an id: all but the last id of it.
* `gapRecorded_iff`: **the gap is recorded as a whole when it is empty or its last id is in the
  holes already**, and otherwise it is not.
-/

namespace Telegraph.Database

/-- A row of the messages table: conversation and id. -/
structure MidRow where
  cid : ℤ
  mid : BitVec 32
deriving DecidableEq

/-- The table of the holes: an index set for a conversation. -/
abbrev HolesTable := Dictionary ℤ NSIndexSet

namespace HolesTable

/-- `_historyHolesInConversation:`; without a row there are none. -/
def historyHolesInConversation (table : HolesTable) (peerId : ℤ) : NSIndexSet :=
  (table.lookup peerId).getD .empty

/-- `addConversationHistoryHole:minMessageId:maxMessageId:`. -/
def addConversationHistoryHole (table : HolesTable) (peerId : ℤ)
    (minMessageId maxMessageId : BitVec 32) : Option HolesTable := do
  let indexSet ← (table.historyHolesInConversation peerId).addIndexesInRange
    (NSMakeRange minMessageId (maxMessageId - minMessageId))
  pure (table.insert peerId indexSet)

/-- `MIN(mid)`, one row further. -/
def minStep (least : Option (BitVec 32)) (row : MidRow) : Option (BitVec 32) :=
  match least with
  | none => some row.mid
  | some least => some (if row.mid.slt least then row.mid else least)

/-- `SELECT MIN(mid) FROM messages WHERE cid = ? AND mid > ?`. -/
def minMid (messages : List MidRow) (peerId : ℤ) (maxMessageId : BitVec 32) :
    Option (BitVec 32) :=
  (messages.filter fun row => row.cid = peerId ∧ maxMessageId.slt row.mid).foldl minStep none

/-- `addConversationHistoryHoleToLoadedLaterMessages:maxMessageId:`. Without a later message the
minimum is `NULL`, which is read as `0`. -/
def addConversationHistoryHoleToLoadedLaterMessages (table : HolesTable) (messages : List MidRow)
    (peerId : ℤ) (maxMessageId : BitVec 32) : Option HolesTable :=
  let nextMessage := (minMid messages peerId maxMessageId).getD 0
  if (maxMessageId + 1).slt (nextMessage - 1) then
    table.addConversationHistoryHole peerId (maxMessageId + 1) (nextMessage - 1)
  else some table

/-- `fillConversationHistoryHole:indexSet:`. -/
def fillConversationHistoryHole (table : HolesTable) (peerId : ℤ) (filledIndexSet : NSIndexSet) :
    HolesTable :=
  table.insert peerId ((table.historyHolesInConversation peerId).removeIndexes filledIndexSet)

/-- `conversationContainsHole:minMessageId:maxMessageId:`. -/
def conversationContainsHole (table : HolesTable) (peerId : ℤ)
    (minMessageId maxMessageId : BitVec 32) : Bool :=
  (table.historyHolesInConversation peerId).intersectsIndexesInRange
    (NSMakeRange minMessageId (maxMessageId - minMessageId))

/-! ### What is recorded -/

/-- The id is a hole of the conversation. -/
def Hole (table : HolesTable) (peerId id : ℤ) : Prop :=
  (table.historyHolesInConversation peerId).Has id

/-- The id is between `maxMessageId` and the next stored message. -/
def InGap (messages : List MidRow) (peerId : ℤ) (maxMessageId : BitVec 32) (id : ℤ) : Prop :=
  ∃ next, minMid messages peerId maxMessageId = some next ∧
    maxMessageId.toInt < id ∧ id < next.toInt

/-- The gap above an id is recorded as a whole, it is found when it is looked for, and what is
filled is taken out and nothing else. -/
structure GapRecorded (table : HolesTable) (messages : List MidRow) (peerId : ℤ)
    (maxMessageId : BitVec 32) (after : HolesTable) : Prop where
  recorded : ∀ id, after.Hole peerId id ↔
    table.Hole peerId id ∨ InGap messages peerId maxMessageId id
  found : ∀ next, minMid messages peerId maxMessageId = some next →
    (∃ id, InGap messages peerId maxMessageId id) →
      after.conversationContainsHole peerId maxMessageId next = true
  filled : ∀ (filledIndexSet : NSIndexSet) (id : ℤ),
    (after.fillConversationHistoryHole peerId filledIndexSet).Hole peerId id ↔
      after.Hole peerId id ∧ ¬ filledIndexSet.Has id

variable {table after : HolesTable} {messages : List MidRow} {peerId : ℤ}
  {maxMessageId next : BitVec 32}

/-- What is inserted for a conversation is its index set. -/
@[simp] theorem historyHoles_insert (table : HolesTable) (peerId : ℤ) (indexSet : NSIndexSet) :
    HolesTable.historyHolesInConversation (table.insert peerId indexSet) peerId = indexSet := by
  rw [historyHolesInConversation, AList.lookup_insert, Option.getD_some]

/-- Filling takes out the filled ids and nothing else. -/
theorem hole_fill (table : HolesTable) (peerId : ℤ) (filledIndexSet : NSIndexSet) (id : ℤ) :
    (table.fillConversationHistoryHole peerId filledIndexSet).Hole peerId id ↔
      table.Hole peerId id ∧ ¬ filledIndexSet.Has id := by
  rw [Hole, fillConversationHistoryHole, historyHoles_insert, NSIndexSet.has_removeIndexes, Hole]

/-- The minimum is the id of a row, and no row has a smaller one. -/
theorem foldl_minStep {rows : List MidRow} {least : Option (BitVec 32)}
    (h : rows.foldl minStep least = some next) :
    (least = some next ∨ ∃ row ∈ rows, row.mid = next) ∧
      (∀ mid, least = some mid → next.toInt ≤ mid.toInt) ∧
      ∀ row ∈ rows, next.toInt ≤ row.mid.toInt := by
  induction rows generalizing least with
  | nil =>
      refine ⟨Or.inl h, fun mid hmid => ?_, fun row hrow => absurd hrow List.not_mem_nil⟩
      rw [Option.some.inj (h.symm.trans hmid)]
  | cons row rows ih =>
      obtain ⟨hfrom, hleast, hrows⟩ := ih h
      have hrest : (∃ other ∈ rows, other.mid = next) → ∃ other ∈ row :: rows, other.mid = next :=
        fun ⟨other, hother, hmid⟩ => ⟨other, List.mem_cons_of_mem row hother, hmid⟩
      cases least with
      | none =>
          refine ⟨Or.inr (hfrom.elim (fun hrow => ?_) hrest), nofun,
            List.forall_mem_cons.mpr ⟨hleast row.mid rfl, hrows⟩⟩
          exact ⟨row, List.mem_cons_self, Option.some.inj hrow⟩
      | some least =>
          rw [minStep] at hfrom hleast
          by_cases hlt : row.mid.slt least
          · rw [if_pos hlt] at hfrom hleast
            rw [BitVec.slt_eq_decide, decide_eq_true_eq] at hlt
            have hrow := hleast row.mid rfl
            refine ⟨Or.inr (hfrom.elim (fun hrow => ?_) hrest), ?_,
              List.forall_mem_cons.mpr ⟨hrow, hrows⟩⟩
            · exact ⟨row, List.mem_cons_self, Option.some.inj hrow⟩
            · rintro mid ⟨⟩
              omega
          · rw [if_neg hlt] at hfrom hleast
            rw [BitVec.slt_eq_decide, decide_eq_true_eq] at hlt
            have hle := hleast least rfl
            exact ⟨hfrom.imp_right hrest, fun mid hmid => hleast mid hmid,
              List.forall_mem_cons.mpr ⟨by omega, hrows⟩⟩

/-- The smallest stored id above an id. -/
theorem lt_of_minMid (h : minMid messages peerId maxMessageId = some next) :
    maxMessageId.toInt < next.toInt := by
  obtain ⟨hnone | ⟨row, hrow, rfl⟩, -⟩ := foldl_minStep h
  · exact absurd hnone (Option.some_ne_none next).symm
  · have htest := (List.mem_filter.mp hrow).2
    rw [decide_eq_true_eq, BitVec.slt_eq_decide, decide_eq_true_eq] at htest
    exact htest.2

/-- No id between an id and the minimum above it is stored. -/
theorem not_stored_inGap {id : ℤ} (h : InGap messages peerId maxMessageId id) {row : MidRow}
    (hrow : row ∈ messages) (hcid : row.cid = peerId) : row.mid.toInt ≠ id := by
  obtain ⟨next, hnext, hlow, hhigh⟩ := h
  rintro rfl
  have htest : row ∈ messages.filter fun row => row.cid = peerId ∧ maxMessageId.slt row.mid := by
    rw [List.mem_filter, decide_eq_true_eq, BitVec.slt_eq_decide, decide_eq_true_eq]
    exact ⟨hrow, hcid, hlow⟩
  exact absurd hhigh (not_lt.mpr ((foldl_minStep hnext).2.2 row htest))

/-- The successor of an id. -/
theorem toInt_succ (value : BitVec 32) (hvalue : value.toInt < 2 ^ 31 - 1) :
    (value + 1).toInt = value.toInt + 1 := by
  have hbound := BitVec.le_toInt (x := value)
  rw [BitVec.toInt_add, show (1 : BitVec 32).toInt = 1 from rfl]
  apply Int.bmod_eq_of_le <;> omega

/-- The predecessor of an id. -/
theorem toInt_pred (value : BitVec 32) (hvalue : -2 ^ 31 < value.toInt) :
    (value - 1).toInt = value.toInt - 1 := by
  have hbound := BitVec.toInt_lt (x := value)
  rw [BitVec.toInt_sub, show (1 : BitVec 32).toInt = 1 from rfl]
  apply Int.bmod_eq_of_le <;> omega

/-- A hole cannot start below zero. -/
theorem addHole_of_neg {low high : BitVec 32} (hlow : low.toInt < 0) :
    table.addConversationHistoryHole peerId low high = none := by
  have hwide := toNat_wide_of_neg hlow
  rw [addConversationHistoryHole, NSIndexSet.addIndexesInRange, dif_neg]
  · rfl
  · exact not_le.mpr (lt_of_lt_of_le hwide (Nat.le_add_right _ _))

/-- A hole from a non-negative id on is recorded up to its upper end, exclusively. -/
theorem addHole_of_nonneg (table : HolesTable) (peerId : ℤ) (low high : BitVec 32)
    (hlow : 0 ≤ low.toInt)
    (hle : low.toInt ≤ high.toInt) :
    ∃ after, table.addConversationHistoryHole peerId low high = some after ∧
      ∀ id, after.Hole peerId id ↔
        table.Hole peerId id ∨ low.toInt ≤ id ∧ id < high.toInt := by
  have hhigh := BitVec.toInt_lt (x := high)
  rw [addConversationHistoryHole, NSMakeRange_of_nonneg hlow hle]
  cases hadd : (table.historyHolesInConversation peerId).addIndexesInRange
    ⟨low.toInt.toNat, (high.toInt - low.toInt).toNat⟩ with
  | none =>
    rw [NSIndexSet.addIndexesInRange, dif_pos] at hadd
    · exact absurd hadd (Option.some_ne_none _)
    · dsimp only [NSNotFound]
      omega
  | some indexSet =>
    refine ⟨_, rfl, fun id => ?_⟩
    rw [Hole, historyHoles_insert, NSIndexSet.has_addIndexesInRange hadd, Hole]
    exact or_congr Iff.rfl (by dsimp only; omega)

/-- Nothing is found in a range that starts below zero. -/
theorem not_containsHole_of_neg {low high : BitVec 32} (hlow : low.toInt < 0) :
    table.conversationContainsHole peerId low high = false :=
  NSIndexSet.not_intersects_of_neg _ hlow _

/-- What is found in a range of non-negative ids. -/
theorem containsHole_iff {low high : BitVec 32} (hlow : 0 ≤ low.toInt)
    (hle : low.toInt ≤ high.toInt) :
    table.conversationContainsHole peerId low high = true ↔
      ∃ id, table.Hole peerId id ∧ low.toInt ≤ id ∧ id < high.toInt :=
  NSIndexSet.intersects_iff _ hlow hle

/-! ### The gap above an id -/

/-- The ids of the gap. -/
theorem inGap_iff (h : minMid messages peerId maxMessageId = some next) (id : ℤ) :
    InGap messages peerId maxMessageId id ↔ maxMessageId.toInt < id ∧ id < next.toInt := by
  rw [InGap, h]
  constructor
  · rintro ⟨_, hnext, hid⟩
    rwa [Option.some.inj hnext]
  · exact fun hid => ⟨next, rfl, hid⟩

/-- A gap of at most one id is not recorded. -/
theorem addLater_of_narrow (h : minMid messages peerId maxMessageId = some next)
    (hnarrow : next.toInt ≤ maxMessageId.toInt + 2) :
    table.addConversationHistoryHoleToLoadedLaterMessages messages peerId maxMessageId =
      some table := by
  have hlt := lt_of_minMid h
  have hhigh := BitVec.toInt_lt (x := next)
  have hlow := BitVec.le_toInt (x := maxMessageId)
  have hsucc := toInt_succ maxMessageId (by omega)
  have hpred := toInt_pred next (by omega)
  rw [addConversationHistoryHoleToLoadedLaterMessages, h, Option.getD_some, if_neg]
  rw [BitVec.slt_eq_decide, decide_eq_true_eq]
  omega

/-- What is recorded of the gap above a non-negative id: all but the last id of it. -/
theorem mem_addLater (table : HolesTable) (h : minMid messages peerId maxMessageId = some next)
    (hmax : 0 ≤ maxMessageId.toInt) :
    ∃ after, table.addConversationHistoryHoleToLoadedLaterMessages messages peerId maxMessageId =
        some after ∧
      ∀ id, after.Hole peerId id ↔
        table.Hole peerId id ∨ maxMessageId.toInt < id ∧ id < next.toInt - 1 := by
  rcases le_or_gt next.toInt (maxMessageId.toInt + 2) with hnarrow | hwide
  · refine ⟨table, addLater_of_narrow h hnarrow, fun id => (or_iff_left ?_).symm⟩
    omega
  · have hhigh := BitVec.toInt_lt (x := next)
    have hsucc := toInt_succ maxMessageId (by omega)
    have hpred := toInt_pred next (by omega)
    obtain ⟨after, hafter, hholes⟩ := addHole_of_nonneg table peerId
      (maxMessageId + 1) (next - 1) (by omega) (by omega)
    refine ⟨after, ?_, fun id => ?_⟩
    · rw [addConversationHistoryHoleToLoadedLaterMessages, h, Option.getD_some, if_pos, hafter]
      rw [BitVec.slt_eq_decide, decide_eq_true_eq]
      omega
    · rw [hholes, hsucc, hpred, Int.add_one_le_iff]

/-- Where there is no gap, nothing need be recorded. -/
theorem gapRecorded_self (hgap : ∀ id, ¬ InGap messages peerId maxMessageId id) :
    GapRecorded table messages peerId maxMessageId table where
  recorded id := (or_iff_left (hgap id)).symm
  found _ _ := fun ⟨id, hid⟩ => absurd hid (hgap id)
  filled := hole_fill table peerId

/-- Without a later message. -/
theorem gapRecorded_none (h : minMid messages peerId maxMessageId = none) :
    (∃ after, table.addConversationHistoryHoleToLoadedLaterMessages messages peerId
        maxMessageId = some after ∧ GapRecorded table messages peerId maxMessageId after) ↔
      -2 ≤ maxMessageId.toInt ∧ maxMessageId.toInt < 2 ^ 31 - 1 := by
  have hgap : ∀ id, ¬ InGap messages peerId maxMessageId id := by
    rintro id ⟨next, hnext, -⟩
    exact absurd (h.symm.trans hnext) nofun
  rw [addConversationHistoryHoleToLoadedLaterMessages, h, Option.getD_none,
    show (0 : BitVec 32) - 1 = -1 from rfl]
  constructor
  · rintro ⟨after, hafter, -⟩
    by_contra hout
    have hneg : (maxMessageId + 1).toInt < -1 := by
      have hbound := BitVec.toInt_lt (x := maxMessageId)
      rcases lt_or_ge maxMessageId.toInt (2 ^ 31 - 1) with hlt | hge
      · rw [toInt_succ _ hlt]
        omega
      · have hmax : maxMessageId = BitVec.intMax 32 :=
          BitVec.eq_of_toInt_eq (by rw [BitVec.toInt_intMax]; omega)
        rw [hmax]
        decide
    rw [if_pos (by rw [BitVec.slt_eq_decide, decide_eq_true_eq]; exact hneg),
      addHole_of_neg (by omega)] at hafter
    exact absurd hafter nofun
  · rintro ⟨hlow, hhigh⟩
    refine ⟨table, if_neg ?_, gapRecorded_self hgap⟩
    rw [BitVec.slt_eq_decide, decide_eq_true_eq, toInt_succ _ hhigh]
    exact not_lt.mpr (by change -1 ≤ _; omega)

/-- With a later message. -/
theorem gapRecorded_some (h : minMid messages peerId maxMessageId = some next) :
    (∃ after, table.addConversationHistoryHoleToLoadedLaterMessages messages peerId
        maxMessageId = some after ∧ GapRecorded table messages peerId maxMessageId after) ↔
      next.toInt = maxMessageId.toInt + 1 ∨
        0 ≤ maxMessageId.toInt ∧ table.Hole peerId (next.toInt - 1) := by
  have hlt := lt_of_minMid h
  constructor
  · rintro ⟨after, hafter, hrecorded⟩
    refine or_iff_not_imp_left.mpr fun hgap => ?_
    have hlast : InGap messages peerId maxMessageId (next.toInt - 1) :=
      (inGap_iff h _).mpr ⟨by omega, by omega⟩
    have hmax : 0 ≤ maxMessageId.toInt := by
      by_contra hneg
      have hfound := hrecorded.found next h ⟨_, hlast⟩
      rw [not_containsHole_of_neg (by omega)] at hfound
      exact absurd hfound nofun
    obtain ⟨_, hsame, hholes⟩ := mem_addLater table h hmax
    obtain rfl := Option.some.inj (hsame.symm.trans hafter)
    refine ⟨hmax, ?_⟩
    rcases (hholes _).mp ((hrecorded.recorded _).mpr (Or.inr hlast)) with hhole | hnew
    · exact hhole
    · omega
  · rintro (hnone | ⟨hmax, hlast⟩)
    · refine ⟨table, addLater_of_narrow h (by omega), gapRecorded_self fun id hid => ?_⟩
      have hbetween := (inGap_iff h id).mp hid
      omega
    · obtain ⟨after, hafter, hholes⟩ := mem_addLater table h hmax
      refine ⟨after, hafter, fun id => ?_, fun other hother hgap => ?_, hole_fill after peerId⟩
      · rw [hholes, inGap_iff h]
        constructor
        · rintro (hhole | hnew)
          · exact Or.inl hhole
          · exact Or.inr ⟨hnew.1, by omega⟩
        · rintro (hhole | hnew)
          · exact Or.inl hhole
          · rcases eq_or_ne id (next.toInt - 1) with rfl | hne
            · exact Or.inl hlast
            · exact Or.inr ⟨hnew.1, by omega⟩
      · obtain rfl := Option.some.inj (h.symm.trans hother)
        rw [containsHole_iff hmax hlt.le]
        obtain ⟨id, hid⟩ := hgap
        have hbetween := (inGap_iff h id).mp hid
        exact ⟨next.toInt - 1, (hholes _).mpr (Or.inl hlast), by omega, by omega⟩

/-- **key result**: the gap above an id is recorded as a whole when it is empty or its last id is
in the holes already, and otherwise it is not. Without a later message nothing is recorded, above
`-3`; lower ids raise. -/
theorem gapRecorded_iff (table : HolesTable) (messages : List MidRow) (peerId : ℤ)
    (maxMessageId : BitVec 32) :
    (∃ after, table.addConversationHistoryHoleToLoadedLaterMessages messages peerId
        maxMessageId = some after ∧ GapRecorded table messages peerId maxMessageId after) ↔
      match minMid messages peerId maxMessageId with
      | none => -2 ≤ maxMessageId.toInt ∧ maxMessageId.toInt < 2 ^ 31 - 1
      | some next => next.toInt = maxMessageId.toInt + 1 ∨
          0 ≤ maxMessageId.toInt ∧ table.Hole peerId (next.toInt - 1) := by
  cases h : minMid messages peerId maxMessageId with
  | none => exact gapRecorded_none h
  | some next => exact gapRecorded_some h

/-- With a stored message 3 and nothing recorded, the gap above 1 is lost. -/
theorem not_gapRecorded_three :
    ¬ ∃ after, HolesTable.addConversationHistoryHoleToLoadedLaterMessages ∅ [⟨1, 3⟩] 1 1 =
      some after ∧ GapRecorded ∅ [⟨1, 3⟩] 1 1 after := by
  rintro ⟨after, hafter, hrecorded⟩
  obtain rfl := Option.some.inj (hafter.symm.trans
    (addLater_of_narrow (show minMid [⟨1, 3⟩] 1 1 = some 3 by decide +kernel) (by decide +kernel)))
  have hhole := (hrecorded.recorded 2).mpr (Or.inr ⟨3, by decide +kernel⟩)
  obtain ⟨index, hindex, -⟩ := hhole
  exact absurd hindex (Finset.notMem_empty index)

end HolesTable

end Telegraph.Database
