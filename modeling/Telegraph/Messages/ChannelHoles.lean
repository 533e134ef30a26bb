import Mathlib.Algebra.Order.Ring.Int
import Mathlib.Data.List.Sort
import Telegraph.Lib.Intervals
import Telegraph.Lib.Machine

/-!
# Holes in the History of a Channel

`TGDatabase` keeps, for each channel, the ranges of message ids it knows to be missing: the
rows of `channel_message_holes` and `channel_message_unimportant_holes`, with the primary key
`(cid, max_id)`. Every statement names the channel, so a table is kept here as the rows of each
`cid`; an `INSERT` whose key is there already fails and stores nothing. The sort key of a row
is left out.

The lists `addedMessages` and `removedMessages` that the callers pass in are kept in the state,
beside the rows that the statements have in fact deleted and inserted.

## Main results

* `mem_intersectingHoles`: **what the two queries find** among separate holes.
* `holes_setAlgebra`: exactly when holes stay a set algebra.
-/

namespace Telegraph.Messages

open Intervals Machine

/-! ### Holes -/

/-- `TGMessageHole`, a range of message ids that is not empty. -/
structure TGMessageHole where
  minId : ℤ
  minTimestamp : ℤ
  maxId : ℤ
  maxTimestamp : ℤ
  minId_le_maxId : minId ≤ maxId
deriving DecidableEq

namespace TGMessageHole

/-- `intersects:`. -/
def intersects (hole other : TGMessageHole) : Bool :=
  hole.minId ≤ other.maxId && hole.maxId ≥ other.minId

/-- `covers:`. -/
def covers (hole other : TGMessageHole) : Bool :=
  other.minId ≥ hole.minId && other.maxId ≤ hole.maxId

/-- The part of a hole above `other`, if there is one. -/
def above (hole other : TGMessageHole) : List TGMessageHole :=
  if h : other.maxId < hole.maxId then
    [⟨other.maxId + 1, other.maxTimestamp, hole.maxId, hole.maxTimestamp, h⟩]
  else []

/-- `exclude:`. -/
def exclude (hole other : TGMessageHole) : List TGMessageHole :=
  if h : other.minId ≤ hole.minId then hole.above other
  else
    ⟨hole.minId, hole.minTimestamp, other.minId - 1, other.minTimestamp,
      Int.le_sub_one_of_lt (lt_of_not_ge h)⟩ :: hole.above other

/-- The hole that `_addChannelHole:…` grows over the current one. -/
def extend (hole current : TGMessageHole) : TGMessageHole where
  minId := if current.minId < hole.minId then current.minId else hole.minId
  minTimestamp := if current.minId < hole.minId then current.minTimestamp else hole.minTimestamp
  maxId := if current.maxId > hole.maxId then current.maxId else hole.maxId
  maxTimestamp := if current.maxId > hole.maxId then current.maxTimestamp else hole.maxTimestamp
  minId_le_maxId := by
    have := hole.minId_le_maxId
    split
    all_goals split
    all_goals omega

end TGMessageHole

/-- The message that stands for a hole in the history of a channel. -/
structure HoleMessage where
  cid : ℤ
  mid : ℤ
  date : ℤ
  hole : TGMessageHole
deriving DecidableEq

/-- `_messagesFromHoles:peerId:`. -/
def messagesFromHoles (holes : List TGMessageHole) (peerId : ℤ) : List HoleMessage :=
  holes.map fun hole => ⟨peerId, -hole.maxId, hole.maxTimestamp, hole⟩

/-- `_messageIdsFromHoles:`. -/
def messageIdsFromHoles (holes : List TGMessageHole) : List ℤ :=
  holes.map fun hole => -hole.maxId

/-! ### The tables -/

/-- The tables of holes (`unimportant` names the second one), and the lists of the callers.
`deleted` and `inserted` are the rows that statements have deleted and inserted, each with
its channel; `expected` are the ids that the calls are meant to leave missing. -/
structure ChannelHoles where
  holes : Bool → ℤ → List TGMessageHole
  addedMessages : List HoleMessage
  removedMessages : List ℤ
  deleted : List (ℤ × TGMessageHole)
  inserted : List (ℤ × TGMessageHole)
  expected : Bool → ℤ → Set ℤ

/-- A call that changes the holes. -/
inductive HoleCall where
  | addChannelHole (peerId : ℤ) (hole : TGMessageHole) (unimportant : Bool)
  | removeChannelHole (peerId : ℤ) (hole : TGMessageHole) (unimportant : Bool)

/-- A value for one table and channel is set. -/
def setAt {β : Type*} (f : Bool → ℤ → β) (unimportant : Bool) (peerId : ℤ) (value : β) :
    Bool → ℤ → β :=
  fun u p => if u = unimportant ∧ p = peerId then value else f u p

/-- `ORDER BY max_id ASC`, also the order that `sortUsingComparator:` makes. -/
def sortByMaxId (holes : List TGMessageHole) : List TGMessageHole :=
  holes.mergeSort fun lhs rhs => decide (lhs.maxId ≤ rhs.maxId)

namespace ChannelHoles

/-- Empty tables. -/
def empty : ChannelHoles :=
  ⟨fun _ _ => [], [], [], [], [], fun _ _ => ∅⟩

/-- `_intersectingHoles:hole:unimportant:`. -/
def intersectingHoles (s : ChannelHoles) (peerId : ℤ) (hole : TGMessageHole)
    (unimportant : Bool) : List TGMessageHole :=
  let stored := s.holes unimportant peerId
  let previousResults := stored.filter fun result =>
    result.maxId ≥ hole.minId && result.maxId ≤ hole.maxId
  let nextResult := (sortByMaxId (stored.filter fun result => result.maxId > hole.maxId)).head?
  sortByMaxId (previousResults ++ (nextResult.filter hole.intersects).toList)

/-- `DELETE … WHERE cid=? AND max_id=?`. -/
def deleteHole (s : ChannelHoles) (peerId maxId : ℤ) (unimportant : Bool) : ChannelHoles :=
  let stored := s.holes unimportant peerId
  { s with
    holes := setAt s.holes unimportant peerId (stored.filter fun row => !decide (row.maxId = maxId))
    deleted := s.deleted ++
      (stored.filter fun row => decide (row.maxId = maxId)).map fun row => (peerId, row) }

/-- `INSERT … (cid, max_id, …)`, which the primary key may refuse. -/
def insertHole (s : ChannelHoles) (peerId : ℤ) (hole : TGMessageHole) (unimportant : Bool) :
    ChannelHoles :=
  let stored := s.holes unimportant peerId
  if hole.maxId ∈ stored.map TGMessageHole.maxId then s
  else
    { s with
      holes := setAt s.holes unimportant peerId (stored ++ [hole])
      inserted := s.inserted ++ [(peerId, hole)] }

/-- Messages are added to the list of the caller. -/
def addMessages (s : ChannelHoles) (messages : List HoleMessage) : ChannelHoles :=
  { s with addedMessages := s.addedMessages ++ messages }

/-- Message ids are added to the list of the caller. -/
def removeMessages (s : ChannelHoles) (messageIds : List ℤ) : ChannelHoles :=
  { s with removedMessages := s.removedMessages ++ messageIds }

/-- `_addChannelHole:…`. The loop over the holes it has found deletes and reports `hole`
itself. -/
def addChannelHole (s : ChannelHoles) (peerId : ℤ) (hole : TGMessageHole)
    (unimportant : Bool) : ChannelHoles :=
  let intersectedHoles := s.intersectingHoles peerId hole unimportant
  if intersectedHoles = [] then
    (s.insertHole peerId hole unimportant).addMessages (messagesFromHoles [hole] peerId)
  else
    let s := intersectedHoles.foldl (fun s _ =>
      (s.deleteHole peerId hole.maxId unimportant).removeMessages (messageIdsFromHoles [hole])) s
    let updatedHole := intersectedHoles.foldl TGMessageHole.extend hole
    (s.addMessages (messagesFromHoles [updatedHole] peerId)).insertHole peerId updatedHole
      unimportant

/-- `_removeChannelHole:…`. -/
def removeChannelHole (s : ChannelHoles) (peerId : ℤ) (hole : TGMessageHole)
    (unimportant : Bool) : ChannelHoles :=
  let intersectedHoles := s.intersectingHoles peerId hole unimportant
  if intersectedHoles ≠ [] then
    let addedHoles := intersectedHoles.flatMap fun currentHole =>
      if !hole.covers currentHole then currentHole.exclude hole else []
    let s := intersectedHoles.foldl (fun s currentHole =>
      s.deleteHole peerId currentHole.maxId unimportant) s
    let s := addedHoles.foldl (fun s addedHole => s.insertHole peerId addedHole unimportant) s
    (s.removeMessages (messageIdsFromHoles intersectedHoles)).addMessages
      (messagesFromHoles addedHoles peerId)
  else s

/-- A step: the call, and what it is meant to leave missing. -/
def step (s : ChannelHoles) : HoleCall → ChannelHoles
  | .addChannelHole peerId hole unimportant =>
      { s.addChannelHole peerId hole unimportant with
        expected := setAt s.expected unimportant peerId
          (s.expected unimportant peerId ∪ {id | hole.minId ≤ id ∧ id ≤ hole.maxId}) }
  | .removeChannelHole peerId hole unimportant =>
      { s.removeChannelHole peerId hole unimportant with
        expected := setAt s.expected unimportant peerId
          (s.expected unimportant peerId \ {id | hole.minId ≤ id ∧ id ≤ hole.maxId}) }

end ChannelHoles

/-! ### Relative positions of two holes -/

namespace TGMessageHole

variable {hole other : TGMessageHole} {id : ℤ}

/-- The ids of a hole. -/
abbrev Has (hole : TGMessageHole) (id : ℤ) : Prop := Within minId maxId hole id

theorem intersects_iff :
    hole.intersects other ↔ hole.minId ≤ other.maxId ∧ other.minId ≤ hole.maxId := by
  simp only [intersects, ge_iff_le, Bool.and_eq_true, decide_eq_true_eq]

/-- Holes with an id in common intersect. -/
theorem intersects_of_has (hid : hole.Has id) (hid' : other.Has id) : hole.intersects other :=
  intersects_iff.mpr ⟨hid.1.trans hid'.2, hid'.1.trans hid.2⟩

/-- The part above `other` has the ids above it. -/
theorem mem_covered_above (hmeet : hole.minId ≤ other.maxId) :
    id ∈ covered minId maxId (hole.above other) ↔ hole.Has id ∧ other.maxId < id := by
  have := hole.minId_le_maxId
  simp only [above]
  split
  · simp only [mem_covered_singleton, Has, Within]
    omega
  · simp only [covered_nil, Set.mem_empty_iff_false, false_iff, Has, Within]
    omega

/-- **`exclude:`** leaves the ids of the hole that are not in the other one. -/
theorem mem_covered_exclude (hmeet : hole.intersects other) :
    id ∈ covered minId maxId (hole.exclude other) ↔ hole.Has id ∧ ¬ other.Has id := by
  obtain ⟨hle, hle'⟩ := intersects_iff.mp hmeet
  have := hole.minId_le_maxId
  have := other.minId_le_maxId
  simp only [exclude]
  split
  · rw [mem_covered_above hle]
    simp only [Has, Within]
    omega
  · rw [← List.singleton_append, covered_append, Set.mem_union, mem_covered_above hle,
      mem_covered_singleton]
    simp only [Has, Within]
    omega

/-- What `exclude:` leaves is separate. -/
theorem separate_exclude (hmeet : hole.intersects other) :
    Separate minId maxId (hole.exclude other) := by
  obtain ⟨hle, -⟩ := intersects_iff.mp hmeet
  have habove : Separate minId maxId (hole.above other) := by
    simp only [above]
    split
    · exact .singleton (minId_le_maxId _)
    · exact .nil
  simp only [exclude]
  split
  · exact habove
  · rw [← List.singleton_append]
    refine (Separate.singleton (minId_le_maxId _)).append habove fun i hi j hj => ?_
    refine apart_of_not_within i.minId_le_maxId j.minId_le_maxId fun id hid hid' => ?_
    have hgt := ((mem_covered_above hle).mp ⟨j, hj, hid'⟩).2
    rw [List.mem_singleton.mp hi] at hid
    exact absurd (hid.2.trans (Int.sub_le_self _ (by decide))) (by
      have := other.minId_le_maxId
      omega)

/-- A hole grown over one that it intersects has the ids of both. -/
theorem has_extend (hmeet : hole.intersects other) :
    (hole.extend other).Has id ↔ hole.Has id ∨ other.Has id := by
  obtain ⟨hle, hle'⟩ := intersects_iff.mp hmeet
  have := hole.minId_le_maxId
  have := other.minId_le_maxId
  simp only [extend, Within]
  split
  all_goals split
  all_goals omega

/-- What a call of `_removeChannelHole:…` puts in the place of a hole. -/
def left (hole other : TGMessageHole) : List TGMessageHole :=
  if !other.covers hole then hole.exclude other else []

/-- It has the ids of the hole that are not removed. -/
theorem mem_covered_left (hmeet : hole.intersects other) :
    id ∈ covered minId maxId (hole.left other) ↔ hole.Has id ∧ ¬ other.Has id := by
  simp only [left]
  split
  · exact mem_covered_exclude hmeet
  case isFalse hcovers =>
    simp only [covers, ge_iff_le, Bool.not_eq_true', Bool.not_eq_false, Bool.and_eq_true,
      decide_eq_true_eq] at hcovers
    simp only [covered_nil, Set.mem_empty_iff_false, false_iff, Has, Within]
    omega

/-- It is separate. -/
theorem separate_left (hmeet : hole.intersects other) : Separate minId maxId (hole.left other) := by
  simp only [left]
  split
  · exact separate_exclude hmeet
  · exact .nil

end TGMessageHole

/-! ### The queries -/

namespace ChannelHoles

open TGMessageHole

variable {s : ChannelHoles} {peerId : ℤ} {hole stored : TGMessageHole} {unimportant : Bool}

theorem perm_sortByMaxId (holes : List TGMessageHole) : (sortByMaxId holes).Perm holes :=
  List.mergeSort_perm _ _

theorem pairwise_sortByMaxId (holes : List TGMessageHole) :
    (sortByMaxId holes).Pairwise fun lhs rhs => lhs.maxId ≤ rhs.maxId := by
  refine (List.pairwise_mergeSort ?_ ?_ holes).imp fun h => of_decide_eq_true h
  · intro a b c hab hbc
    exact decide_eq_true ((of_decide_eq_true hab).trans (of_decide_eq_true hbc))
  · intro a b
    rcases le_total a.maxId b.maxId with h | h
    all_goals simp only [h, decide_true, Bool.true_or, Bool.or_true]

/-- The row found by `ORDER BY max_id ASC LIMIT 1`. -/
theorem head_sortByMaxId {holes : List TGMessageHole} :
    (sortByMaxId holes).head? = some stored →
      stored ∈ holes ∧ ∀ other ∈ holes, stored.maxId ≤ other.maxId := by
  intro hhead
  obtain ⟨rest, hrest⟩ := List.head?_eq_some_iff.mp hhead
  have hmem : ∀ other, other ∈ stored :: rest ↔ other ∈ holes := fun other =>
    hrest ▸ (perm_sortByMaxId holes).mem_iff
  refine ⟨(hmem stored).mp List.mem_cons_self, fun other hother => ?_⟩
  have hsorted := hrest ▸ pairwise_sortByMaxId holes
  rcases List.mem_cons.mp ((hmem other).mpr hother) with rfl | hother
  · exact le_refl _
  · exact List.rel_of_pairwise_cons hsorted hother

/-- **What the two queries find**: the stored holes that intersect the given one. -/
theorem mem_intersectingHoles
    (hsep : Separate minId maxId (s.holes unimportant peerId)) :
    stored ∈ s.intersectingHoles peerId hole unimportant ↔
      stored ∈ s.holes unimportant peerId ∧ hole.intersects stored := by
  simp only [intersectingHoles, (perm_sortByMaxId _).mem_iff, List.mem_append, List.mem_filter,
    Option.mem_toList, Option.filter_eq_some_iff, Bool.and_eq_true,
    decide_eq_true_eq, intersects_iff]
  constructor
  · rintro (⟨hstored, hge, hle⟩ | ⟨hnext, hmeet⟩)
    · exact ⟨hstored, hge, stored.minId_le_maxId.trans hle⟩
    · exact ⟨(List.mem_filter.mp (head_sortByMaxId hnext).1).1, hmeet⟩
  · rintro ⟨hstored, hle, hle'⟩
    rcases le_or_gt stored.maxId hole.maxId with hbelow | habove
    · exact .inl ⟨hstored, hle, hbelow⟩
    · refine .inr ⟨?_, hle, hle'⟩
      have hmem : stored ∈ (s.holes unimportant peerId).filter fun result =>
          result.maxId > hole.maxId :=
        List.mem_filter.mpr ⟨hstored, decide_eq_true habove⟩
      obtain ⟨next, hnext⟩ := Option.isSome_iff_exists.mp (List.isSome_head?.mpr
        (List.ne_nil_of_mem ((perm_sortByMaxId _).mem_iff.mpr hmem)))
      obtain ⟨hnextMem, hfirst⟩ := head_sortByMaxId hnext
      obtain ⟨hnextMem, hnextAbove⟩ := List.mem_filter.mp hnextMem
      -- only the first of the holes that end above can reach down to the given one
      have heq : stored.maxId = next.maxId :=
        le_antisymm (hsep.hi_le_of_meets hstored hnextMem hle' (of_decide_eq_true hnextAbove))
          (hfirst stored hmem)
      rw [hnext, hsep.eq_of_hi_eq hstored hnextMem heq]

/-- The queries find no hole twice. -/
theorem nodup_intersectingHoles (hole : TGMessageHole)
    (hsep : Separate minId maxId (s.holes unimportant peerId)) :
    (s.intersectingHoles peerId hole unimportant).Nodup := by
  simp only [intersectingHoles, (perm_sortByMaxId _).nodup_iff]
  refine List.nodup_append.mpr ⟨hsep.nodup.filter _, ?_, ?_⟩
  · cases (sortByMaxId ((s.holes unimportant peerId).filter fun result =>
      result.maxId > hole.maxId)).head?.filter hole.intersects with
    | none => exact List.nodup_nil
    | some next => exact List.nodup_singleton next
  · rintro a ha b hb rfl
    obtain ⟨hnext, -⟩ := Option.filter_eq_some_iff.mp (Option.mem_toList.mp hb)
    have hle := (List.mem_filter.mp ha).2
    have hgt := (List.mem_filter.mp (head_sortByMaxId hnext).1).2
    simp only [Bool.and_eq_true, decide_eq_true_eq] at hle hgt
    omega

/-! ### The statements -/

@[simp] theorem setAt_same {β : Type*} (f : Bool → ℤ → β) (value : β) :
    setAt f unimportant peerId value unimportant peerId = value :=
  if_pos ⟨rfl, rfl⟩

theorem setAt_self {β : Type*} (f : Bool → ℤ → β) :
    setAt f unimportant peerId (f unimportant peerId) = f := by
  funext u p
  simp only [setAt]
  split
  case isTrue h => rw [h.1, h.2]
  case isFalse => rfl

theorem setAt_setAt {β : Type*} (f : Bool → ℤ → β) (value value' : β) :
    setAt (setAt f unimportant peerId value) unimportant peerId value' =
      setAt f unimportant peerId value' := by
  funext u p
  simp only [setAt]
  split
  all_goals rfl

/-- The key of a stored hole is that of no other. -/
theorem filter_maxId_eq {holes : List TGMessageHole} (hsep : Separate minId maxId holes)
    (hstored : stored ∈ holes) :
    (holes.filter fun row => decide (row.maxId = stored.maxId)) = [stored] := by
  have hcongr : (holes.filter fun row => decide (row.maxId = stored.maxId)) =
      holes.filter fun row => row == stored := by
    refine List.filter_congr fun row hrow => ?_
    rw [beq_eq_decide]
    exact decide_eq_decide.mpr
      ⟨fun heq => hsep.eq_of_hi_eq hrow hstored heq, fun heq => heq ▸ rfl⟩
  rw [hcongr, List.filter_beq, List.count_eq_one_of_mem hsep.nodup hstored]
  rfl

/-- Deleting a stored hole by its key. -/
theorem deleteHole_of_mem (hsep : Separate minId maxId (s.holes unimportant peerId))
    (hstored : stored ∈ s.holes unimportant peerId) :
    s.deleteHole peerId stored.maxId unimportant =
      { s with
        holes := setAt s.holes unimportant peerId
          ((s.holes unimportant peerId).filter fun row => !decide (row = stored))
        deleted := s.deleted ++ [(peerId, stored)] } := by
  have hcongr : ((s.holes unimportant peerId).filter fun row =>
      !decide (row.maxId = stored.maxId)) =
      (s.holes unimportant peerId).filter fun row => !decide (row = stored) := by
    refine List.filter_congr fun row hrow => ?_
    rw [decide_eq_decide.mpr
      ⟨fun heq => hsep.eq_of_hi_eq hrow hstored heq, fun heq : row = stored => heq ▸ rfl⟩]
  simp only [deleteHole, filter_maxId_eq hsep hstored, hcongr, List.map_cons, List.map_nil]

theorem insertHole_addMessages (messages : List HoleMessage) :
    (s.addMessages messages).insertHole peerId hole unimportant =
      (s.insertHole peerId hole unimportant).addMessages messages := by
  by_cases h : hole.maxId ∈ (s.holes unimportant peerId).map maxId
  · simp only [insertHole, addMessages, h, if_true]
  · simp only [insertHole, addMessages, h, if_false]

theorem insertHole_removeMessages (messageIds : List ℤ) :
    (s.removeMessages messageIds).insertHole peerId hole unimportant =
      (s.insertHole peerId hole unimportant).removeMessages messageIds := by
  by_cases h : hole.maxId ∈ (s.holes unimportant peerId).map maxId
  · simp only [insertHole, removeMessages, h, if_true]
  · simp only [insertHole, removeMessages, h, if_false]

/-- Holes that are stored are deleted one after the other. -/
theorem foldl_deleteHole (hsep : Separate minId maxId (s.holes unimportant peerId))
    {holes : List TGMessageHole} (hstored : ∀ hole ∈ holes, hole ∈ s.holes unimportant peerId)
    (hnodup : holes.Nodup) :
    holes.foldl (fun s hole => s.deleteHole peerId hole.maxId unimportant) s =
      { s with
        holes := setAt s.holes unimportant peerId
          ((s.holes unimportant peerId).filter fun row => !decide (row ∈ holes))
        deleted := s.deleted ++ holes.map fun row => (peerId, row) } := by
  induction holes generalizing s with
  | nil =>
      simp only [List.foldl_nil, List.not_mem_nil, decide_false, Bool.not_false, List.filter_true,
        setAt_self, List.map_nil, List.append_nil]
  | cons hole holes ih =>
      obtain ⟨hnotMem, hnodup⟩ := List.nodup_cons.mp hnodup
      rw [List.foldl_cons, deleteHole_of_mem hsep (hstored hole List.mem_cons_self), ih]
      · simp only [setAt_same, setAt_setAt, List.filter_filter, List.map_cons,
          List.append_assoc, List.singleton_append]
        congr 3
        funext row
        by_cases heq : row = hole
        · simp only [heq, decide_true, Bool.not_true, Bool.and_false, List.mem_cons, true_or]
        · simp only [heq, decide_false, Bool.not_false, Bool.and_true, List.mem_cons, false_or]
      · simp only [setAt_same]
        exact hsep.filter _
      · intro other hother
        simp only [setAt_same]
        refine List.mem_filter.mpr ⟨hstored other (List.mem_cons_of_mem _ hother), ?_⟩
        simp only [Bool.not_eq_true', decide_eq_false_iff_not]
        rintro rfl
        exact hnotMem hother
      · exact hnodup

/-- Holes apart from those stored and from one another are inserted one after the other. -/
theorem foldl_insertHole (s : ChannelHoles) {holes : List TGMessageHole}
    (hsep : Separate minId maxId (s.holes unimportant peerId ++ holes)) :
    holes.foldl (fun s hole => s.insertHole peerId hole unimportant) s =
      { s with
        holes := setAt s.holes unimportant peerId (s.holes unimportant peerId ++ holes)
        inserted := s.inserted ++ holes.map fun row => (peerId, row) } := by
  induction holes generalizing s with
  | nil => simp only [List.foldl_nil, List.append_nil, setAt_self, List.map_nil]
  | cons hole holes ih =>
      have hfree : hole.maxId ∉ (s.holes unimportant peerId).map maxId := by
        intro hmem
        obtain ⟨other, hother, heq⟩ := List.mem_map.mp hmem
        obtain rfl := hsep.eq_of_hi_eq (List.mem_append_left _ hother)
          (List.mem_append_right _ List.mem_cons_self) heq
        exact (List.nodup_append.mp hsep.nodup).2.2 _ hother _ List.mem_cons_self rfl
      rw [List.foldl_cons, insertHole, if_neg hfree, ih]
      · simp only [setAt_same, setAt_setAt, List.append_assoc, List.singleton_append,
          List.map_cons]
      · simp only [setAt_same, List.append_assoc]
        exact hsep

/-- **`_removeChannelHole:…`**, as one change of the table. -/
theorem removeChannelHole_eq (hole : TGMessageHole)
    (hsep : Separate minId maxId (s.holes unimportant peerId)) :
    let found := s.intersectingHoles peerId hole unimportant
    let rest := found.flatMap fun current => current.left hole
    let kept := (s.holes unimportant peerId).filter fun row => !decide (row ∈ found)
    Separate minId maxId (kept ++ rest) ∧
      s.removeChannelHole peerId hole unimportant =
        { s with
          holes := setAt s.holes unimportant peerId (kept ++ rest)
          removedMessages := s.removedMessages ++ messageIdsFromHoles found
          addedMessages := s.addedMessages ++ messagesFromHoles rest peerId
          deleted := s.deleted ++ found.map fun row => (peerId, row)
          inserted := s.inserted ++ rest.map fun row => (peerId, row) } := by
  intro found rest kept
  have hfound : ∀ row ∈ found, row ∈ s.holes unimportant peerId ∧ hole.intersects row :=
    fun row hrow => (mem_intersectingHoles hsep).mp hrow
  have hmeets : ∀ row ∈ found, row.intersects hole := fun row hrow =>
    intersects_iff.mpr (intersects_iff.mp (hfound row hrow).2).symm
  have hfoundSep : Separate minId maxId found :=
    hsep.of_subset (nodup_intersectingHoles hole hsep) fun row hrow => (hfound row hrow).1
  have hsepRest : Separate minId maxId (kept ++ rest) := by
    refine hsep.replace _ (hfoundSep.flatMap (fun row hrow => separate_left (hmeets row hrow))
      fun row hrow id hid => ((mem_covered_left (hmeets row hrow)).mp hid).1) ?_
    intro id hid
    obtain ⟨row, hrow, hid⟩ := mem_covered_flatMap.mp hid
    exact ⟨row, List.mem_filter.mpr ⟨(hfound row hrow).1, decide_eq_true hrow⟩,
      ((mem_covered_left (hmeets row hrow)).mp hid).1⟩
  refine ⟨hsepRest, ?_⟩
  have hdelete := foldl_deleteHole hsep (fun row hrow => (hfound row hrow).1)
    (nodup_intersectingHoles hole hsep)
  simp only [removeChannelHole]
  split
  case isTrue =>
    have hinsert := foldl_insertHole { s with
      holes := setAt s.holes unimportant peerId kept
      deleted := s.deleted ++ found.map fun row => (peerId, row) }
      (show Separate minId maxId (setAt s.holes unimportant peerId kept unimportant peerId ++ rest) by
        simpa only [setAt_same] using hsepRest)
    simp only [setAt_same, setAt_setAt] at hinsert
    rw [hdelete]
    exact congrArg (fun s : ChannelHoles =>
      (s.removeMessages (messageIdsFromHoles found)).addMessages (messagesFromHoles rest peerId))
      hinsert
  case isFalse hnone =>
    have hnone : found = [] := not_not.mp hnone
    simp only [rest, kept, hnone, List.flatMap_nil, List.not_mem_nil, decide_false, Bool.not_false,
      List.filter_true, List.append_nil, setAt_self, List.map_nil, messageIdsFromHoles,
      messagesFromHoles]

/-- The holes found are all that intersect, so the kept ones have no id of the given hole. -/
theorem mem_covered_kept (hsep : Separate minId maxId (s.holes unimportant peerId)) {id : ℤ} :
    id ∈ covered minId maxId ((s.holes unimportant peerId).filter fun row =>
        !decide (row ∈ s.intersectingHoles peerId hole unimportant)) ↔
      id ∈ covered minId maxId (s.holes unimportant peerId) ∧
        id ∉ covered minId maxId (s.intersectingHoles peerId hole unimportant) := by
  rw [hsep.covered_filter, Set.mem_sdiff]
  refine and_congr_right fun _ => not_congr ⟨?_, ?_⟩
  · rintro ⟨row, hrow, hid⟩
    exact ⟨row, of_decide_eq_true (List.mem_filter.mp hrow).2, hid⟩
  · rintro ⟨row, hrow, hid⟩
    exact ⟨row, List.mem_filter.mpr
      ⟨((mem_intersectingHoles hsep).mp hrow).1, decide_eq_true hrow⟩, hid⟩

/-- An id of a stored hole that intersects is one of the holes found. -/
theorem mem_covered_found (hsep : Separate minId maxId (s.holes unimportant peerId)) {id : ℤ}
    (hid : id ∈ covered minId maxId (s.holes unimportant peerId)) (hhole : hole.Has id) :
    id ∈ covered minId maxId (s.intersectingHoles peerId hole unimportant) := by
  obtain ⟨row, hrow, hrowHas⟩ := hid
  exact ⟨row, (mem_intersectingHoles hsep).mpr ⟨hrow, intersects_of_has hhole hrowHas⟩, hrowHas⟩

/-- The ids of the holes found are missing. -/
theorem mem_covered_of_found (hsep : Separate minId maxId (s.holes unimportant peerId)) (id : ℤ) :
    id ∈ covered minId maxId (s.intersectingHoles peerId hole unimportant) →
      id ∈ covered minId maxId (s.holes unimportant peerId) := by
  rintro ⟨row, hrow, hid⟩
  exact ⟨row, ((mem_intersectingHoles hsep).mp hrow).1, hid⟩

/-- What is put in the place of the holes found has their ids but those of the given hole. -/
theorem mem_covered_rest (hsep : Separate minId maxId (s.holes unimportant peerId)) {id : ℤ} :
    id ∈ covered minId maxId ((s.intersectingHoles peerId hole unimportant).flatMap
        fun current => current.left hole) ↔
      id ∈ covered minId maxId (s.intersectingHoles peerId hole unimportant) ∧ ¬ hole.Has id := by
  rw [mem_covered_flatMap, mem_covered, exists_and_right.symm]
  refine exists_congr fun row => ?_
  rw [and_assoc]
  refine and_congr_right fun hrow => mem_covered_left ?_
  have hmeets := intersects_iff.mp ((mem_intersectingHoles hsep).mp hrow).2
  exact intersects_iff.mpr hmeets.symm

/-! ### Steps -/

/-- The condition on a call: an added hole intersects no stored one, or only the one that
ends where it does. -/
def MeetsAtEnd (s : ChannelHoles) : HoleCall → Prop
  | .addChannelHole peerId hole unimportant =>
      ∀ stored ∈ s.holes unimportant peerId, hole.intersects stored → stored.maxId = hole.maxId
  | .removeChannelHole _ _ _ => True

/-- A hole that takes the place of those found is apart from the others. -/
theorem separate_kept_append (hsep : Separate minId maxId (s.holes unimportant peerId))
    {updated : TGMessageHole}
    (hupdated : ∀ id, updated.Has id → hole.Has id ∨
      id ∈ covered minId maxId (s.intersectingHoles peerId hole unimportant)) :
    Separate minId maxId (((s.holes unimportant peerId).filter fun row =>
      !decide (row ∈ s.intersectingHoles peerId hole unimportant)) ++ [updated]) := by
  refine (hsep.filter _).append (.singleton updated.minId_le_maxId) fun row hrow other hother => ?_
  obtain rfl := List.mem_singleton.mp hother
  refine apart_of_not_within row.minId_le_maxId other.minId_le_maxId fun id hid hid' => ?_
  obtain ⟨hstored, hnot⟩ := (mem_covered_kept hsep).mp ⟨row, hrow, hid⟩
  rcases hupdated id hid' with hhole | hfound
  · exact hnot (mem_covered_found hsep hstored hhole)
  · exact hnot hfound

/-- Under the condition at most one hole is found. -/
theorem intersectingHoles_of_meetsAtEnd
    (hsep : Separate minId maxId (s.holes unimportant peerId))
    (hend : ∀ stored ∈ s.holes unimportant peerId, hole.intersects stored →
      stored.maxId = hole.maxId) :
    s.intersectingHoles peerId hole unimportant = [] ∨
      ∃ stored ∈ s.holes unimportant peerId, stored.maxId = hole.maxId ∧
        s.intersectingHoles peerId hole unimportant = [stored] := by
  have hnodup := nodup_intersectingHoles hole hsep
  have hmem : ∀ row, row ∈ s.intersectingHoles peerId hole unimportant ↔
      row ∈ s.holes unimportant peerId ∧ hole.intersects row :=
    fun row => mem_intersectingHoles hsep
  cases hfound : s.intersectingHoles peerId hole unimportant with
  | nil => exact .inl rfl
  | cons stored rest =>
      rw [hfound] at hnodup hmem
      obtain ⟨hstored, hmeets⟩ := (hmem stored).mp List.mem_cons_self
      refine .inr ⟨stored, hstored, hend stored hstored hmeets, ?_⟩
      cases rest with
      | nil => rfl
      | cons other rest =>
          obtain ⟨hother, hmeets'⟩ := (hmem other).mp (List.mem_cons_of_mem _ List.mem_cons_self)
          obtain rfl := hsep.eq_of_hi_eq hstored hother
            ((hend stored hstored hmeets).trans (hend other hother hmeets').symm)
          exact absurd List.mem_cons_self (List.nodup_cons.mp hnodup).1

/-- **`_addChannelHole:…`**, as one change of the table, when the hole meets the condition. -/
theorem addChannelHole_eq (hsep : Separate minId maxId (s.holes unimportant peerId))
    (hend : ∀ stored ∈ s.holes unimportant peerId, hole.intersects stored →
      stored.maxId = hole.maxId) :
    let found := s.intersectingHoles peerId hole unimportant
    let kept := (s.holes unimportant peerId).filter fun row => !decide (row ∈ found)
    ∃ updated : TGMessageHole,
      (∀ id, updated.Has id ↔ hole.Has id ∨ id ∈ covered minId maxId found) ∧
      s.addChannelHole peerId hole unimportant =
        { s with
          holes := setAt s.holes unimportant peerId (kept ++ [updated])
          removedMessages := s.removedMessages ++ messageIdsFromHoles found
          addedMessages := s.addedMessages ++ messagesFromHoles [updated] peerId
          deleted := s.deleted ++ found.map fun row => (peerId, row)
          inserted := s.inserted ++ [(peerId, updated)] } := by
  intro found kept
  have hkept : ∀ updated : TGMessageHole,
      (∀ id, updated.Has id → hole.Has id ∨ id ∈ covered minId maxId found) →
      Separate minId maxId (kept ++ [updated]) :=
    fun updated hupdated => separate_kept_append hsep hupdated
  rcases intersectingHoles_of_meetsAtEnd hsep hend with hnone | ⟨stored, hstored, heq, hone⟩
  · have hhas : ∀ id, hole.Has id ↔ hole.Has id ∨ id ∈ covered minId maxId found := by
      intro id
      simp only [found, hnone, covered_nil, Set.mem_empty_iff_false, or_false]
    refine ⟨hole, hhas, ?_⟩
    have hall : kept = s.holes unimportant peerId := by
      simp only [kept, found, hnone, List.not_mem_nil, decide_false, Bool.not_false,
        List.filter_true]
    have hinsert := foldl_insertHole s (hall ▸ hkept hole fun id => (hhas id).mp)
    simp only [List.foldl_cons, List.foldl_nil] at hinsert
    simp only [addChannelHole, hnone, if_true, hinsert, addMessages, hall, found,
      messageIdsFromHoles, List.map_nil, List.append_nil, List.map_cons]
  · have hmeets : hole.intersects stored :=
      ((mem_intersectingHoles hsep).mp (hone ▸ List.mem_singleton_self stored)).2
    have hhas : ∀ id, (hole.extend stored).Has id ↔
        hole.Has id ∨ id ∈ covered minId maxId found := by
      intro id
      rw [has_extend hmeets]
      simp only [found, hone, mem_covered_singleton]
    refine ⟨hole.extend stored, hhas, ?_⟩
    have hinsert := foldl_insertHole { s with
      holes := setAt s.holes unimportant peerId kept
      deleted := s.deleted ++ [(peerId, stored)] }
      (show Separate minId maxId
          (setAt s.holes unimportant peerId kept unimportant peerId ++ [hole.extend stored]) by
        simpa only [setAt_same] using hkept _ fun id => (hhas id).mp)
    simp only [List.foldl_cons, List.foldl_nil, setAt_same, setAt_setAt] at hinsert
    have hdelete : s.deleteHole peerId hole.maxId unimportant =
        { s with
          holes := setAt s.holes unimportant peerId kept
          deleted := s.deleted ++ [(peerId, stored)] } := by
      rw [← heq, deleteHole_of_mem hsep hstored]
      simp only [kept, found, hone, List.mem_singleton]
    have hids : messageIdsFromHoles found = messageIdsFromHoles [hole] := by
      simp only [messageIdsFromHoles, found, hone, List.map_cons, List.map_nil, heq]
    rw [addChannelHole, hone, if_neg (List.cons_ne_nil _ _)]
    simp only [List.foldl_cons, List.foldl_nil]
    rw [insertHole_addMessages, insertHole_removeMessages, hdelete, hinsert, hids]
    simp only [addMessages, removeMessages, found, hone, List.map_cons, List.map_nil]

/-- **The holes form a set algebra**: those of a channel in a table are ranges apart from one
another and cover what they are meant to, and the lists of the callers name the rows that
were deleted and inserted. -/
structure SetAlgebra (s : ChannelHoles) : Prop where
  separate : ∀ unimportant peerId, Separate minId maxId (s.holes unimportant peerId)
  covered : ∀ unimportant peerId,
    covered minId maxId (s.holes unimportant peerId) = s.expected unimportant peerId
  removed : s.removedMessages = messageIdsFromHoles (s.deleted.map Prod.snd)
  added : s.addedMessages = s.inserted.flatMap fun row => messagesFromHoles [row.2] row.1

theorem setAlgebra_empty : SetAlgebra empty :=
  ⟨fun _ _ => .nil, fun _ _ => covered_nil, rfl, rfl⟩

/-- What a call may change: one channel of one table, and the lists in step with the rows. -/
theorem SetAlgebra.change (h : SetAlgebra s) {found new : List TGMessageHole}
    (rest : List TGMessageHole) {ids : Set ℤ}
    (hsep : Separate minId maxId new) (hcovered : Intervals.covered minId maxId new = ids) :
    SetAlgebra
      { holes := setAt s.holes unimportant peerId new
        removedMessages := s.removedMessages ++ messageIdsFromHoles found
        addedMessages := s.addedMessages ++ messagesFromHoles rest peerId
        deleted := s.deleted ++ found.map fun row => (peerId, row)
        inserted := s.inserted ++ rest.map fun row => (peerId, row)
        expected := setAt s.expected unimportant peerId ids } where
  separate := by
    intro u p
    simp only [setAt]
    split
    · exact hsep
    · exact h.separate u p
  covered := by
    intro u p
    simp only [setAt]
    split
    · exact hcovered
    · exact h.covered u p
  removed := by
    simp only [h.removed, messageIdsFromHoles, List.map_append, List.map_map, Function.comp_def]
  added := by
    have hrest : messagesFromHoles rest peerId =
        rest.flatMap fun hole => messagesFromHoles [hole] peerId := List.map_eq_flatMap
    simp only [h.added, hrest, List.flatMap_append, List.flatMap_map]

/-- **A call that meets the condition keeps the set algebra.** -/
theorem setAlgebra_step (h : SetAlgebra s) (call : HoleCall) (hend : MeetsAtEnd s call) :
    SetAlgebra (s.step call) := by
  cases call with
  | addChannelHole peerId hole unimportant =>
      have hsep := h.separate unimportant peerId
      obtain ⟨updated, hhas, heq⟩ := addChannelHole_eq hsep hend
      simp only [step, heq]
      refine h.change [updated] (separate_kept_append hsep fun id => (hhas id).mp) ?_
      ext id
      have hstored : id ∈ covered minId maxId (s.intersectingHoles peerId hole unimportant) → _ :=
        mem_covered_of_found hsep id
      have hid := hhas id
      rw [covered_append, Set.mem_union, mem_covered_kept hsep, mem_covered_singleton,
        ← h.covered, Set.mem_union, Set.mem_ofPred_eq]
      simp only [Has, Within] at hid ⊢
      tauto
  | removeChannelHole peerId hole unimportant =>
      have hsep := h.separate unimportant peerId
      obtain ⟨hsepRest, heq⟩ := removeChannelHole_eq hole hsep
      simp only [step, heq]
      refine h.change _ hsepRest ?_
      ext id
      have hstored : id ∈ covered minId maxId (s.intersectingHoles peerId hole unimportant) → _ :=
        mem_covered_of_found hsep id
      have hfound : _ → hole.Has id → _ := mem_covered_found hsep
      rw [covered_append, Set.mem_union, mem_covered_kept hsep, mem_covered_rest hsep,
        ← h.covered, Set.mem_sdiff, Set.mem_ofPred_eq]
      simp only [Has, Within] at hfound ⊢
      tauto

/-! ### What the loop of an added hole does -/

/-- Deleting by a key that no row has. -/
theorem deleteHole_of_free {maxId : ℤ}
    (hfree : ∀ row ∈ s.holes unimportant peerId, row.maxId ≠ maxId) :
    s.deleteHole peerId maxId unimportant = s := by
  have hnone : ((s.holes unimportant peerId).filter fun row => decide (row.maxId = maxId)) = [] :=
    List.filter_eq_nil_iff.mpr fun row hrow => by simpa only [decide_eq_true_eq] using hfree row hrow
  have hall : ((s.holes unimportant peerId).filter fun row => !decide (row.maxId = maxId)) =
      s.holes unimportant peerId :=
    List.filter_eq_self.mpr fun row hrow => by
      simpa only [Bool.not_eq_true', decide_eq_false_iff_not] using hfree row hrow
  simp only [deleteHole, hnone, hall, setAt_self, List.map_nil, List.append_nil]

/-- The loop reports once for every hole found and deletes nothing more. -/
theorem foldl_report (holes : List TGMessageHole)
    (hfree : ∀ row ∈ s.holes unimportant peerId, row.maxId ≠ hole.maxId) :
    let s' := holes.foldl (fun s _ =>
      (s.deleteHole peerId hole.maxId unimportant).removeMessages (messageIdsFromHoles [hole])) s
    s'.deleted = s.deleted ∧
      s'.removedMessages.length = s.removedMessages.length + holes.length := by
  induction holes generalizing s with
  | nil => exact ⟨rfl, rfl⟩
  | cons _ holes ih =>
      simp only [List.foldl_cons, deleteHole_of_free hfree]
      obtain ⟨hdeleted, hlength⟩ := ih (s := s.removeMessages (messageIdsFromHoles [hole])) hfree
      refine ⟨hdeleted, hlength.trans ?_⟩
      simp only [removeMessages, messageIdsFromHoles, List.length_append, List.length_map,
        List.length_cons, List.length_nil]
      omega

/-- Inserting a row and adding messages leave the other two lists. -/
theorem frame_insertHole :
    (s.insertHole peerId hole unimportant).deleted = s.deleted ∧
      (s.insertHole peerId hole unimportant).removedMessages = s.removedMessages := by
  simp only [insertHole]
  split
  all_goals exact ⟨rfl, rfl⟩

/-- A call that finds holes reports one for each, and deletes the row with the key of the
added hole. -/
theorem length_addChannelHole (hfound : s.intersectingHoles peerId hole unimportant ≠ []) :
    (s.addChannelHole peerId hole unimportant).removedMessages.length =
        s.removedMessages.length + (s.intersectingHoles peerId hole unimportant).length ∧
      (s.addChannelHole peerId hole unimportant).deleted.length = s.deleted.length +
        ((s.holes unimportant peerId).filter fun row =>
          decide (row.maxId = hole.maxId)).length := by
  rw [addChannelHole, if_neg hfound]
  simp only [frame_insertHole, addMessages]
  cases hcons : s.intersectingHoles peerId hole unimportant with
  | nil => exact absurd hcons hfound
  | cons first rest =>
      have hfree : ∀ row ∈ (s.deleteHole peerId hole.maxId unimportant).holes unimportant peerId,
          row.maxId ≠ hole.maxId := by
        intro row hrow
        simp only [deleteHole, setAt_same, List.mem_filter, Bool.not_eq_true',
          decide_eq_false_iff_not] at hrow
        exact hrow.2
      obtain ⟨hdeleted, hlength⟩ := foldl_report rest
        (s := (s.deleteHole peerId hole.maxId unimportant).removeMessages
          (messageIdsFromHoles [hole])) hfree
      simp only [List.foldl_cons]
      rw [hdeleted, hlength]
      simp only [removeMessages, deleteHole, messageIdsFromHoles, List.length_append,
        List.length_map, List.length_cons, List.length_nil, and_true]
      omega

/-- A call after which the holes are a set algebra has met the condition. -/
theorem meetsAtEnd_of_setAlgebra (h : SetAlgebra s) (call : HoleCall)
    (hafter : SetAlgebra (s.step call)) : MeetsAtEnd s call := by
  cases call with
  | removeChannelHole _ _ _ => trivial
  | addChannelHole peerId hole unimportant =>
      intro stored hstored hmeets
      have hsep := h.separate unimportant peerId
      have hmem := (mem_intersectingHoles hsep).mpr ⟨hstored, hmeets⟩
      obtain ⟨hremoved, hdeleted⟩ := length_addChannelHole (List.ne_nil_of_mem hmem)
      have hbefore : s.removedMessages.length = s.deleted.length := by
        rw [h.removed, messageIdsFromHoles, List.length_map, List.length_map]
      have hreport : (s.addChannelHole peerId hole unimportant).removedMessages.length =
          (s.addChannelHole peerId hole unimportant).deleted.length := by
        have := congrArg List.length hafter.removed
        rwa [messageIdsFromHoles, List.length_map, List.length_map] at this
      have hlength : (s.intersectingHoles peerId hole unimportant).length =
          ((s.holes unimportant peerId).filter fun row =>
            decide (row.maxId = hole.maxId)).length := by omega
      -- a row with the key of the hole intersects it, so it is the one hole found
      by_cases hkey : ∃ row ∈ s.holes unimportant peerId, row.maxId = hole.maxId
      · obtain ⟨row, hrow, heq⟩ := hkey
        have hrowMeets : hole.intersects row :=
          intersects_of_has ⟨hole.minId_le_maxId, le_refl _⟩
            ⟨heq ▸ row.minId_le_maxId, heq.ge⟩
        rw [← heq, filter_maxId_eq hsep hrow] at hlength
        obtain ⟨only, honly⟩ := List.length_eq_one_iff.mp hlength
        have hrowMem := (mem_intersectingHoles hsep).mpr ⟨hrow, hrowMeets⟩
        rw [honly] at hmem hrowMem
        rw [List.mem_singleton.mp hmem, ← List.mem_singleton.mp hrowMem, heq]
      · have hnone : ((s.holes unimportant peerId).filter fun row =>
            decide (row.maxId = hole.maxId)) = [] :=
          List.filter_eq_nil_iff.mpr fun row hrow heq => hkey ⟨row, hrow, of_decide_eq_true heq⟩
        rw [hnone, List.length_nil] at hlength
        exact absurd (List.eq_nil_of_length_eq_zero hlength) (List.ne_nil_of_mem hmem)

end ChannelHoles

/-- **Channel holes are a set algebra** throughout a run of calls from empty tables exactly if
every added hole intersects no stored one of its channel, or only one that ends where it
does. -/
theorem holes_setAlgebra (calls : List HoleCall) :
    Always ChannelHoles.step ChannelHoles.SetAlgebra .empty calls ↔
      AllSteps ChannelHoles.step ChannelHoles.MeetsAtEnd .empty calls :=
  ⟨allSteps_of_always fun _ call h hafter => ChannelHoles.meetsAtEnd_of_setAlgebra h call hafter,
    always_of_allSteps (fun _ call h hend => ChannelHoles.setAlgebra_step h call hend)
      ChannelHoles.setAlgebra_empty⟩

/-- Two holes that overlap stay beside the one that is to replace both. -/
theorem holes_setAlgebra_overlap :
    ¬ ∀ calls : List HoleCall,
      Always ChannelHoles.step ChannelHoles.SetAlgebra .empty calls := by
  intro h
  have hseparate := ((h [.addChannelHole 5 ⟨1, 0, 10, 0, by decide⟩ false,
    .addChannelHole 5 ⟨8, 0, 12, 0, by decide⟩ false]).last).separate false 5 |>.apart
  revert hseparate
  decide +kernel

end Telegraph.Messages
