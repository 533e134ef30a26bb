import Telegraph.Database.HistoryHoles
import Telegraph.Lib.Walks

/-!
# Segments of the History without Holes

Messages that were read from the database are sorted by date and id, and only those around one
message are kept that no hole separates from it. Two loops start at that message, one goes to later
messages and one to earlier ones; each remembers the last remote id and looks for a hole between it
and the next one.

## Main results

* `excludeMessagesWithHoles_eq`: the result as two walks.
* `segmentShown_iff`: **a segment without holes is shown exactly when the tests of the loops tell
  the holes and there is none at the joint between the loops.**
-/

namespace Telegraph.Database

/-- `TGMessageLocalMidBaseline`: the local ids start here. -/
def localMidBaseline : BitVec 32 := 800000000

/-- What is read of a `TGMessage`: its id and its date, in whole seconds. -/
@[ext] structure TGMessage where
  mid : BitVec 32
  date : ℤ
deriving DecidableEq

namespace TGMessage

/-- `message.mid < TGMessageLocalMidBaseline`. -/
def isRemote (message : TGMessage) : Bool := message.mid.slt localMidBaseline

/-- The comparator of the sort: `lt` is `NSOrderedAscending`. -/
def compare (message1 message2 : TGMessage) : Ordering :=
  if message1.date = message2.date then
    if message2.mid.slt message1.mid then .lt else .gt
  else if message2.date < message1.date then .lt else .gt

end TGMessage

/-- `sortedMessages`. -/
def sortedMessages (messages : List TGMessage) : List TGMessage :=
  messages.mergeSort fun message1 message2 => message2.compare message1 != .lt

/-- `MIN` of two ids. -/
def midMin (a b : BitVec 32) : BitVec 32 := if a.slt b then a else b

/-- `MAX` of two ids. -/
def midMax (a b : BitVec 32) : BitVec 32 := if b.slt a then a else b

/-- The loop over messages from one place, with the last remote id; it is 0 at first. -/
def messagesUpToHole (indexSet : NSIndexSet) :
    BitVec 32 → List TGMessage → List TGMessage
  | _, [] => []
  | lastRemoteMessageId, message :: messages =>
      if message.isRemote then
        if lastRemoteMessageId ≠ 0 ∧ indexSet.intersectsIndexesInRange
            (NSMakeRange (midMin message.mid lastRemoteMessageId)
              (midMax message.mid lastRemoteMessageId - midMin message.mid lastRemoteMessageId)) then
          []
        else message :: messagesUpToHole indexSet message.mid messages
      else message :: messagesUpToHole indexSet lastRemoteMessageId messages

namespace HolesTable

/-- `excludeMessagesWithHolesFromArray:peerId:aroundMessageId:`. -/
def excludeMessagesWithHolesFromArray (table : HolesTable) (messages : List TGMessage)
    (peerId : ℤ) (aroundMessageId : BitVec 32) : List TGMessage :=
  if messages.length ≤ 1 then messages
  else
    let sortedMessages := sortedMessages messages
    let indexSet := table.historyHolesInConversation peerId
    match sortedMessages.findIdx? fun message => message.mid = aroundMessageId with
    | none => messagesUpToHole indexSet 0 sortedMessages
    | some fromIndex =>
        messagesUpToHole indexSet 0 (sortedMessages.take (fromIndex + 1)).reverse ++
          messagesUpToHole indexSet 0 (sortedMessages.drop (fromIndex + 1))

end HolesTable

/-! ### What is to be shown -/

/-- A hole lies between the ids of two messages. -/
def HoleBetween (indexSet : NSIndexSet) (a b : TGMessage) : Prop :=
  ∃ id, indexSet.Has id ∧ min a.mid.toInt b.mid.toInt < id ∧ id < max a.mid.toInt b.mid.toInt

/-- No hole lies between neighbours among the remote messages. -/
def WithoutHoles (indexSet : NSIndexSet) (run : List TGMessage) : Prop :=
  (run.filter TGMessage.isRemote).IsChain fun a b => ¬ HoleBetween indexSet a b

/-- Up to order, the messages are a run of the sorted messages that has the message in the middle
if there is one, has no holes and cannot be made longer. -/
structure SegmentShown (indexSet : NSIndexSet) (messages : List TGMessage)
    (aroundMessageId : BitVec 32) (before run behind shown : List TGMessage) : Prop where
  sorted : sortedMessages messages = before ++ run ++ behind
  perm : shown.Perm run
  around : ∀ message ∈ messages, message.mid = aroundMessageId → message ∈ run
  whole : WithoutHoles indexSet run
  later : ∀ message rest, before = rest ++ [message] → ¬ WithoutHoles indexSet (message :: run)
  earlier : ∀ message rest, behind = message :: rest →
    ¬ WithoutHoles indexSet (run ++ [message])

/-! ### When it is shown -/

/-- The messages from the one in the middle to later ones. -/
def laterMessages (messages : List TGMessage) (aroundMessageId : BitVec 32) : List TGMessage :=
  match (sortedMessages messages).findIdx? fun message => message.mid = aroundMessageId with
  | none => []
  | some fromIndex => ((sortedMessages messages).take (fromIndex + 1)).reverse

/-- The messages behind the one in the middle; all, if there is none. -/
def earlierMessages (messages : List TGMessage) (aroundMessageId : BitVec 32) : List TGMessage :=
  match (sortedMessages messages).findIdx? fun message => message.mid = aroundMessageId with
  | none => sortedMessages messages
  | some fromIndex => (sortedMessages messages).drop (fromIndex + 1)

/-- The test of the loops tells whether a hole lies between two messages: where one does, the id
that is remembered is not 0 and none of the ids is negative, and where none does, the lower of the
ids is not a hole itself. -/
structure Told (indexSet : NSIndexSet) (a b : TGMessage) : Prop where
  found : HoleBetween indexSet a b → a.mid ≠ 0 ∧ 0 ≤ min a.mid.toInt b.mid.toInt
  real : indexSet.Has (min a.mid.toInt b.mid.toInt) → a.mid ≠ 0 → a.mid ≠ b.mid →
    HoleBetween indexSet a b

/-- Both loops tell the holes, up to the first one, and no hole lies at the joint between them. -/
structure HolesTold (indexSet : NSIndexSet) (messages : List TGMessage)
    (aroundMessageId : BitVec 32) : Prop where
  later : Walks.Agrees TGMessage.isRemote (Told indexSet) (HoleBetween indexSet) none
    (laterMessages messages aroundMessageId)
  earlier : Walks.Agrees TGMessage.isRemote (Told indexSet) (HoleBetween indexSet) none
    (earlierMessages messages aroundMessageId)
  joint : ∀ a ∈ ((laterMessages messages aroundMessageId).filter TGMessage.isRemote).head?,
    ∀ b ∈ ((earlierMessages messages aroundMessageId).filter TGMessage.isRemote).head?,
      ¬ HoleBetween indexSet a b

variable {indexSet : NSIndexSet} {messages : List TGMessage} {aroundMessageId : BitVec 32}

/-! ### The loops are walks -/

/-- The test of a loop. -/
def stopsAt (indexSet : NSIndexSet) (a b : TGMessage) : Bool :=
  a.mid ≠ 0 ∧ indexSet.intersectsIndexesInRange
    (NSMakeRange (midMin b.mid a.mid) (midMax b.mid a.mid - midMin b.mid a.mid))

/-- A loop is a walk. -/
theorem messagesUpToHole_eq (indexSet : NSIndexSet) (last : Option TGMessage)
    (messages : List TGMessage) :
    messagesUpToHole indexSet (last.elim 0 TGMessage.mid) messages =
      Walks.walk TGMessage.isRemote (stopsAt indexSet) last messages := by
  induction messages generalizing last with
  | nil => rfl
  | cons message messages ih =>
      rw [messagesUpToHole, Walks.walk]
      have hnext := ih (some message)
      rw [Option.elim_some] at hnext
      rw [ih last, hnext]
      cases last with
      | none => simp
      | some a =>
          rw [Option.elim_some, Option.any_some, stopsAt]
          simp only [decide_eq_true_eq]

/-- **The result as two walks.** -/
theorem excludeMessagesWithHoles_eq (table : HolesTable) (peerId : ℤ)
    (hcount : 2 ≤ messages.length) :
    table.excludeMessagesWithHolesFromArray messages peerId aroundMessageId =
      Walks.walk TGMessage.isRemote (stopsAt (table.historyHolesInConversation peerId)) none
          (laterMessages messages aroundMessageId) ++
        Walks.walk TGMessage.isRemote (stopsAt (table.historyHolesInConversation peerId)) none
          (earlierMessages messages aroundMessageId) := by
  have hloop := messagesUpToHole_eq (table.historyHolesInConversation peerId) none
  rw [Option.elim_none] at hloop
  rw [HolesTable.excludeMessagesWithHolesFromArray, if_neg (by omega), laterMessages,
    earlierMessages]
  dsimp only
  split
  · rw [hloop]
    rfl
  · rw [hloop, hloop]

/-! ### The test of the loops -/

/-- The lower of two ids. -/
theorem toInt_midMin (a b : BitVec 32) : (midMin a b).toInt = min a.toInt b.toInt := by
  rw [midMin, BitVec.slt_eq_decide]
  by_cases h : a.toInt < b.toInt
  · rw [decide_eq_true h, if_pos rfl, min_eq_left h.le]
  · rw [decide_eq_false h, if_neg Bool.false_ne_true, min_eq_right (not_lt.mp h)]

/-- The higher of two ids. -/
theorem toInt_midMax (a b : BitVec 32) : (midMax a b).toInt = max a.toInt b.toInt := by
  rw [midMax, BitVec.slt_eq_decide]
  by_cases h : b.toInt < a.toInt
  · rw [decide_eq_true h, if_pos rfl, max_eq_left h.le]
  · rw [decide_eq_false h, if_neg Bool.false_ne_true, max_eq_right (not_lt.mp h)]

/-- The test of a loop, for ids that are not negative. -/
theorem stopsAt_iff {a b : TGMessage} (hlow : 0 ≤ min a.mid.toInt b.mid.toInt) :
    stopsAt indexSet a b = true ↔ a.mid ≠ 0 ∧ ∃ id, indexSet.Has id ∧
      min a.mid.toInt b.mid.toInt ≤ id ∧ id < max a.mid.toInt b.mid.toInt := by
  have hmin : (midMin b.mid a.mid).toInt = min a.mid.toInt b.mid.toInt := by
    rw [toInt_midMin, min_comm]
  have hmax : (midMax b.mid a.mid).toInt = max a.mid.toInt b.mid.toInt := by
    rw [toInt_midMax, max_comm]
  rw [stopsAt, decide_eq_true_eq, NSIndexSet.intersects_iff indexSet (by rwa [hmin])
    (by rw [hmin, hmax]; exact min_le_max), hmin, hmax]

/-- The test of a loop, with a negative id. -/
theorem stopsAt_of_neg {a b : TGMessage} (hlow : min a.mid.toInt b.mid.toInt < 0) :
    stopsAt indexSet a b = false := by
  rw [stopsAt, NSIndexSet.not_intersects_of_neg indexSet
    (by rw [toInt_midMin, min_comm]; exact hlow)]
  simp

/-- **When the test of a loop tells the holes.** -/
theorem told_iff (indexSet : NSIndexSet) (a b : TGMessage) :
    Told indexSet a b ↔ (stopsAt indexSet a b = true ↔ HoleBetween indexSet a b) := by
  rcases lt_or_ge (min a.mid.toInt b.mid.toInt) 0 with hneg | hlow
  · rw [stopsAt_of_neg hneg]
    constructor
    · rintro ⟨hfound, -⟩
      exact iff_of_false Bool.false_ne_true fun h => absurd (hfound h).2 (not_le.mpr hneg)
    · intro h
      exact ⟨fun hhole => absurd (h.mpr hhole) Bool.false_ne_true,
        fun hhas => absurd (NSIndexSet.nonneg_of_has hhas) (not_le.mpr hneg)⟩
  · rw [stopsAt_iff hlow]
    constructor
    · rintro ⟨hfound, hreal⟩
      constructor
      · rintro ⟨hzero, id, hid, hle, hlt⟩
        rcases hle.eq_or_lt with rfl | hlt'
        · exact hreal hid hzero fun heq => by rw [heq] at hlt; simp at hlt
        · exact ⟨id, hid, hlt', hlt⟩
      · intro hhole
        obtain ⟨id, hid, hlt, hlt'⟩ := hhole
        exact ⟨(hfound ⟨id, hid, hlt, hlt'⟩).1, id, hid, hlt.le, hlt'⟩
    · intro h
      refine ⟨fun hhole => ⟨(h.mpr hhole).1, hlow⟩, fun hid hzero hne => ?_⟩
      refine h.mp ⟨hzero, _, hid, le_rfl, ?_⟩
      exact min_lt_max.mpr fun heq => hne (BitVec.eq_of_toInt_eq heq)

/-- A hole lies between two messages whichever comes first. -/
theorem holeBetween_symm (a b : TGMessage) (h : HoleBetween indexSet a b) :
    HoleBetween indexSet b a := by
  rwa [HoleBetween, min_comm, max_comm]

/-! ### The order of the messages -/

/-- A message is not before another one. -/
theorem compare_ne_lt_iff (a b : TGMessage) : (b.compare a != .lt) = true ↔
    b.date < a.date ∨ b.date = a.date ∧ b.mid.toInt ≤ a.mid.toInt := by
  rw [TGMessage.compare, BitVec.slt_eq_decide]
  split
  · split
    case isTrue hlt =>
      rw [decide_eq_true_eq] at hlt
      exact iff_of_false (by decide) (by omega)
    case isFalse hle =>
      rw [decide_eq_true_eq] at hle
      exact iff_of_true (by decide) (by omega)
  · split
    case isTrue hlt => exact iff_of_false (by decide) (by omega)
    case isFalse hle => exact iff_of_true (by decide) (by omega)

/-- The sorted messages are in order. -/
theorem pairwise_sortedMessages (messages : List TGMessage) :
    (sortedMessages messages).Pairwise fun a b => (b.compare a != .lt) = true := by
  refine List.pairwise_mergeSort ?_ ?_ messages
  · intro a b c hab hbc
    rw [compare_ne_lt_iff] at hab hbc ⊢
    omega
  · intro a b
    rw [Bool.or_eq_true, compare_ne_lt_iff, compare_ne_lt_iff]
    omega

/-- Two runs of the same messages are the same. -/
theorem eq_of_perm_of_sublist {run other : List TGMessage}
    (hrun : run.Sublist (sortedMessages messages))
    (hother : other.Sublist (sortedMessages messages)) (h : run.Perm other) : run = other := by
  refine List.Perm.eq_of_pairwise (fun a b _ _ hab hba => ?_)
    ((pairwise_sortedMessages messages).sublist hrun)
    ((pairwise_sortedMessages messages).sublist hother) h
  rw [compare_ne_lt_iff] at hab hba
  exact TGMessage.ext (BitVec.eq_of_toInt_eq (by omega)) (by omega)

/-- The later and the earlier messages make up the sorted ones. -/
theorem later_append_earlier (messages : List TGMessage) (aroundMessageId : BitVec 32) :
    (laterMessages messages aroundMessageId).reverse ++ earlierMessages messages aroundMessageId =
      sortedMessages messages := by
  rw [laterMessages, earlierMessages]
  split
  · rfl
  · rw [List.reverse_reverse, List.take_append_drop]

/-- The message in the middle is the first of the later ones. -/
theorem later_of_mem {message : TGMessage} (hmem : message ∈ messages)
    (haround : message.mid = aroundMessageId) :
    ∃ middle rest, laterMessages messages aroundMessageId = middle :: rest ∧
      middle ∈ messages ∧ middle.mid = aroundMessageId := by
  rw [laterMessages]
  cases hfind : (sortedMessages messages).findIdx? fun message =>
      message.mid = aroundMessageId with
  | none =>
      rw [List.findIdx?_eq_none_iff] at hfind
      have hnot := hfind message (List.mem_mergeSort.mpr hmem)
      exact absurd haround (by simpa using hnot)
  | some fromIndex =>
      obtain ⟨hlt, hmid, -⟩ := List.findIdx?_eq_some_iff_getElem.mp hfind
      refine ⟨(sortedMessages messages)[fromIndex],
        ((sortedMessages messages).take fromIndex).reverse, ?_, List.mem_mergeSort.mp (List.getElem_mem hlt), of_decide_eq_true hmid⟩
      dsimp only
      rw [← List.take_concat_get' _ _ hlt, List.reverse_append, List.reverse_singleton,
        List.singleton_append]

/-! ### The segment -/

/-- The sorted messages are as distinct as the messages. -/
theorem nodup_sortedMessages (hdistinct : (messages.map TGMessage.mid).Nodup) :
    (sortedMessages messages).Nodup :=
  (List.mergeSort_perm messages _).nodup_iff.mpr (List.Nodup.of_map _ hdistinct)

/-- Two parts that leave nothing out make up a segment where the loops do. -/
theorem segmentShown_of_segment {u d u' d' : List TGMessage}
    (hdistinct : (messages.map TGMessage.mid).Nodup)
    (hlater : laterMessages messages aroundMessageId = u ++ u')
    (hearlier : earlierMessages messages aroundMessageId = d ++ d')
    (haround : ∀ middle rest, laterMessages messages aroundMessageId = middle :: rest → middle ∈ u)
    (h : Walks.Segment TGMessage.isRemote (HoleBetween indexSet)
      (laterMessages messages aroundMessageId) (earlierMessages messages aroundMessageId) u d) :
    SegmentShown indexSet messages aroundMessageId u'.reverse (u.reverse ++ d) d' (u ++ d) where
  sorted := by
    rw [← later_append_earlier messages aroundMessageId, hlater, hearlier, List.reverse_append]
    simp only [List.append_assoc]
  perm := (List.reverse_perm u).symm.append_right d
  around message hmem hmid := by
    obtain ⟨middle, rest, hmiddle, hmem', hmid'⟩ := later_of_mem hmem hmid
    have hsame : message = middle :=
      List.inj_on_of_nodup_map hdistinct hmem hmem' (hmid.trans hmid'.symm)
    rw [hsame]
    exact List.mem_append_left d (List.mem_reverse.mpr (haround middle rest hmiddle))
  whole := h.joined
  later message rest hbefore := by
    refine h.up message rest.reverse ?_
    rw [hlater, ← List.reverse_reverse u', hbefore, List.reverse_append]
    rfl
  earlier message rest hbehind := h.down message rest (by rw [hearlier, hbehind])

/-- There is only one way to find what is shown among the sorted messages. -/
theorem segment_of_segmentShown {u d u' d' before run behind : List TGMessage}
    (hdistinct : (messages.map TGMessage.mid).Nodup) (hne : u.reverse ++ d ≠ [])
    (hlater : laterMessages messages aroundMessageId = u ++ u')
    (hearlier : earlierMessages messages aroundMessageId = d ++ d')
    (h : SegmentShown indexSet messages aroundMessageId before run behind (u ++ d)) :
    Walks.Segment TGMessage.isRemote (HoleBetween indexSet)
      (laterMessages messages aroundMessageId) (earlierMessages messages aroundMessageId) u d := by
  have hsorted : sortedMessages messages = u'.reverse ++ (u.reverse ++ d) ++ d' := by
    rw [← later_append_earlier messages aroundMessageId, hlater, hearlier, List.reverse_append]
    simp only [List.append_assoc]
  have hrun : run = u.reverse ++ d := by
    have hrunKept : run.Sublist (sortedMessages messages) := by
      rw [h.sorted]
      exact (List.sublist_append_right before run).trans (List.sublist_append_left _ behind)
    have hwalkKept : (u.reverse ++ d).Sublist (sortedMessages messages) := by
      rw [hsorted]
      exact (List.sublist_append_right _ _).trans (List.sublist_append_left _ d')
    exact eq_of_perm_of_sublist hrunKept hwalkKept
      (h.perm.symm.trans ((List.reverse_perm u).symm.append_right d))
  obtain ⟨first, rest, hfirst⟩ := List.exists_cons_of_ne_nil hne
  have hnodup := nodup_sortedMessages hdistinct
  have hsame := h.sorted.symm.trans hsorted
  rw [h.sorted, hrun, hfirst, List.append_assoc, List.cons_append] at hnodup
  rw [hrun, hfirst, List.append_assoc, List.append_assoc, List.cons_append,
    List.cons_append] at hsame
  obtain ⟨hbefore, -, hbehind⟩ := (List.append_cons_inj_of_notMem
    (fun hmem => (List.nodup_append.mp hnodup).2.2 first hmem first List.mem_cons_self rfl)
    (List.nodup_cons.mp (List.nodup_append.mp hnodup).2.1).1).mp hsame
  have hbehind := List.append_cancel_left hbehind
  refine ⟨?_, fun message others hup hjoined => ?_, fun message others hdown hjoined => ?_⟩
  · rw [← hrun]
    exact h.whole
  · have hu' : u' = message :: others := List.append_cancel_left (hlater.symm.trans hup)
    refine h.later message others.reverse ?_ ?_
    · rw [hbefore, hu', List.reverse_cons]
    · rw [hrun]
      exact hjoined
  · have hd' : d' = message :: others := List.append_cancel_left (hearlier.symm.trans hdown)
    refine h.earlier message others ?_ ?_
    · rw [hbehind, hd']
    · rw [hrun]
      exact hjoined

/-- **What two walks show.** -/
theorem walks_shown_iff (indexSet : NSIndexSet) (aroundMessageId : BitVec 32)
    (hdistinct : (messages.map TGMessage.mid).Nodup) (hcount : 2 ≤ messages.length) :
    (∃ before run behind, SegmentShown indexSet messages aroundMessageId before run behind
        (Walks.walk TGMessage.isRemote (stopsAt indexSet) none
            (laterMessages messages aroundMessageId) ++
          Walks.walk TGMessage.isRemote (stopsAt indexSet) none
            (earlierMessages messages aroundMessageId))) ↔
      HolesTold indexSet messages aroundMessageId := by
  obtain ⟨u', hlater⟩ := Walks.walk_prefix TGMessage.isRemote (stopsAt indexSet) none
    (laterMessages messages aroundMessageId)
  obtain ⟨d', hearlier⟩ := Walks.walk_prefix TGMessage.isRemote (stopsAt indexSet) none
    (earlierMessages messages aroundMessageId)
  have hsegment : Walks.Segment TGMessage.isRemote (HoleBetween indexSet)
      (laterMessages messages aroundMessageId) (earlierMessages messages aroundMessageId)
      (Walks.walk TGMessage.isRemote (stopsAt indexSet) none _)
      (Walks.walk TGMessage.isRemote (stopsAt indexSet) none _) ↔ _ :=
    Walks.segment_iff holeBetween_symm (told_iff indexSet) _ _
  have hne : (Walks.walk TGMessage.isRemote (stopsAt indexSet) none
      (laterMessages messages aroundMessageId)).reverse ++
        Walks.walk TGMessage.isRemote (stopsAt indexSet) none
          (earlierMessages messages aroundMessageId) ≠ [] := by
    intro hnil
    obtain ⟨hu, hd⟩ := List.append_eq_nil_iff.mp hnil
    have hsorted := later_append_earlier messages aroundMessageId
    rw [Walks.eq_nil_of_walk (List.reverse_eq_nil_iff.mp hu), Walks.eq_nil_of_walk hd] at hsorted
    have hlength : (sortedMessages messages).length = messages.length :=
      (List.mergeSort_perm messages _).length_eq
    rw [← hsorted] at hlength
    exact absurd hcount (by rw [← hlength]; decide)
  constructor
  · rintro ⟨before, run, behind, h⟩
    obtain ⟨hup, hdown, hjoint⟩ := hsegment.mp
      (segment_of_segmentShown hdistinct hne hlater.symm hearlier.symm h)
    exact ⟨hup, hdown, hjoint⟩
  · rintro ⟨hup, hdown, hjoint⟩
    refine ⟨_, _, _, segmentShown_of_segment hdistinct hlater.symm hearlier.symm
      (fun middle rest hmiddle => ?_) (hsegment.mpr ⟨hup, hdown, hjoint⟩)⟩
    rw [hmiddle]
    exact Walks.mem_walk_head _ _ middle rest

/-- **key result**: a segment without holes is shown exactly when the tests of both loops tell the
holes and no hole lies at the joint between the loops. -/
theorem segmentShown_iff (table : HolesTable) (peerId : ℤ) (messages : List TGMessage)
    (aroundMessageId : BitVec 32) (hdistinct : (messages.map TGMessage.mid).Nodup)
    (hcount : 2 ≤ messages.length) :
    (∃ before run behind, SegmentShown (table.historyHolesInConversation peerId) messages
        aroundMessageId before run behind
        (table.excludeMessagesWithHolesFromArray messages peerId aroundMessageId)) ↔
      HolesTold (table.historyHolesInConversation peerId) messages aroundMessageId := by
  rw [excludeMessagesWithHoles_eq table peerId hcount]
  exact walks_shown_iff _ aroundMessageId hdistinct hcount

/-- Where there are no holes, they are told. -/
theorem holesTold_empty (messages : List TGMessage) (aroundMessageId : BitVec 32) :
    HolesTold .empty messages aroundMessageId := by
  have hhas : ∀ id, ¬ NSIndexSet.empty.Has id := by
    rintro id ⟨index, hindex, -⟩
    exact absurd hindex (Finset.notMem_empty index)
  have hnone : ∀ a b, ¬ HoleBetween .empty a b := fun a b ⟨id, hid, _⟩ => hhas id hid
  have htold : ∀ a b, Told .empty a b := fun a b =>
    ⟨fun h => absurd h (hnone a b), fun h => absurd h (hhas _)⟩
  exact ⟨Walks.agrees_of_forall htold _ _, Walks.agrees_of_forall htold _ _,
    fun a _ b _ => hnone a b⟩

/-- Two messages without a hole are shown. -/
theorem segmentShown_two : ∃ before run behind,
    SegmentShown .empty [⟨5, 50⟩, ⟨1, 10⟩] 5 before run behind
      (HolesTable.excludeMessagesWithHolesFromArray ∅ [⟨5, 50⟩, ⟨1, 10⟩] 1 5) :=
  (segmentShown_iff ∅ 1 [⟨5, 50⟩, ⟨1, 10⟩] 5 (by decide) (by decide)).mpr
    (holesTold_empty _ _)

/-- The hole 3. -/
def holeThree : NSIndexSet where
  indexes := {3}
  lt_NSNotFound index hindex := by
    rw [Finset.mem_singleton.mp hindex, NSNotFound]
    decide

/-- The messages 5 and 1 are shown with the hole 3 between them. -/
theorem not_segmentShown_joint : ¬ ∃ before run behind,
    SegmentShown holeThree [⟨5, 50⟩, ⟨1, 10⟩] 5 before run behind
      (HolesTable.excludeMessagesWithHolesFromArray
        (AList.insert 1 holeThree (∅ : HolesTable)) [⟨5, 50⟩, ⟨1, 10⟩] 1 5) := by
  have hholes : HolesTable.historyHolesInConversation (AList.insert 1 holeThree ∅) 1 = holeThree :=
    HolesTable.historyHoles_insert ∅ 1 holeThree
  have hsorted : sortedMessages [⟨5, 50⟩, ⟨1, 10⟩] = [⟨5, 50⟩, ⟨1, 10⟩] :=
    List.mergeSort_of_pairwise (by decide)
  rw [excludeMessagesWithHoles_eq _ _ (by decide), hholes,
    walks_shown_iff holeThree 5 (by decide) (by decide)]
  rintro ⟨-, -, hjoint⟩
  rw [laterMessages, earlierMessages, hsorted] at hjoint
  exact hjoint ⟨5, 50⟩ rfl ⟨1, 10⟩ rfl
    ⟨3, ⟨3, Finset.mem_singleton_self 3, rfl⟩, by decide, by decide⟩

end Telegraph.Database
