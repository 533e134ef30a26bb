import Mathlib.Data.List.Sort
import Telegraph.Lib.Reinsertion
import Telegraph.Messages.ConversationViews

/-!
# Pinned Conversations

The order of the pinned conversations is kept as dates, the last conversation having the smallest.
When the server sends a new list, the secret chats of the old one, which the server does not know,
are put back into it at their old places.

## Main results

* `getPinned_datesOf`: the dates of a list give the list back, as far as it loads.
* `updatedPinned_eq`: the new list has the missing secret chats woven into it.
* `pinnedKept_iff`: **order, dates and the effect of a repetition are right exactly when the new
  list is not empty (or at most one chat is missing), the conversations before the last missing
  chat load, and the dates do not run out.**
-/

namespace Telegraph.Messages

open Reinsertion

/-- `_pinnedConversationDates`, which the table has as well. -/
abbrev PinnedDates := Dictionary ℤ (BitVec 32)

namespace PinnedDates

/-- `[dates[nPeerId] intValue]`. -/
def date (dates : PinnedDates) (nPeerId : ℤ) : BitVec 32 := (dates.lookup nPeerId).getD 0

/-- `_getPinnedConversations`: the latest date first, as far as the conversations load. -/
def getPinnedConversations (loads : ℤ → Bool) (dates : PinnedDates) : List ℤ :=
  (dates.keys.mergeSort fun lhs rhs => !(dates.date lhs).slt (dates.date rhs)).filter loads

/-- The dates are given from the last conversation on. -/
def datesOf (updatedPinnedPeerIds : List ℤ) : PinnedDates :=
  (updatedPinnedPeerIds.reverse.foldl
    (fun (given : PinnedDates × BitVec 32) nPeerId =>
      (given.1.insert nPeerId given.2, given.2 + 1))
    (∅, BitVec.ofInt 32 TGConversationPinnedDateBase)).1

/-- The list that the pinned conversations are replaced with. -/
def updatedPinned (loads : ℤ → Bool) (forceReplacePinnedConversations : Bool) (dates : PinnedDates)
    (updatePinnedConversations : List ℤ) : List ℤ :=
  Transaction.updatedPinnedPeerIds forceReplacePinnedConversations
    (dates.getPinnedConversations loads) updatePinnedConversations

/-- `_replacePinnedConversationDates:` with the dates of the list. -/
def replacePinned (loads : ℤ → Bool) (forceReplacePinnedConversations : Bool) (dates : PinnedDates)
    (updatePinnedConversations : List ℤ) : PinnedDates :=
  datesOf (dates.updatedPinned loads forceReplacePinnedConversations updatePinnedConversations)

/-! ### What is to be kept -/

/-- A secret chat that the new list lacks. -/
def isMissing (updated : List ℤ) (peerId : ℤ) : Bool :=
  TGPeerIdIsSecretChat peerId && !updated.contains peerId

/-- The secret chats of the old list that the new one lacks. -/
def missingSecretChats (previous updated : List ℤ) : List ℤ :=
  previous.filter (isMissing updated)

/-- The new list and the missing secret chats are there, each in its order and once, doing it again
changes nothing, and the dates descend along the list. -/
structure PinnedKept (loads : ℤ → Bool) (dates : PinnedDates) (updated : List ℤ) : Prop where
  newOrder : (dates.updatedPinned loads false updated).filter updated.contains = updated
  secretOrder : (dates.updatedPinned loads false updated).filter (fun id => !updated.contains id) =
    missingSecretChats (dates.getPinnedConversations loads) updated
  once : (dates.updatedPinned loads false updated).Nodup
  again : (dates.replacePinned loads false updated).updatedPinned loads false updated =
    dates.updatedPinned loads false updated
  stored : ∀ id, id ∈ dates.replacePinned loads false updated ↔
    id ∈ dates.updatedPinned loads false updated
  descend : (dates.updatedPinned loads false updated).Pairwise fun id next =>
    ((dates.replacePinned loads false updated).date next).toInt <
      ((dates.replacePinned loads false updated).date id).toInt

/-- There is a place for the missing secret chats, the conversations before the last of them load,
and there are dates for all. -/
structure RoomForMissing (loads : ℤ → Bool) (previous updated : List ℤ) : Prop where
  place : updated ≠ [] ∨ (missingSecretChats previous updated).length ≤ 1
  loaded : ∀ id ∈ updated.dropLast.take (othersBefore (isMissing updated) previous),
    loads id = true
  few : updated.length + (missingSecretChats previous updated).length ≤ 547483648

variable {loads : ℤ → Bool} {dates : PinnedDates} {updated pinned : List ℤ} {id : ℤ}

/-! ### The dates of a list -/

/-- The first conversation has the latest date. -/
theorem datesOf_cons (id : ℤ) (pinned : List ℤ) :
    datesOf (id :: pinned) = (datesOf pinned).insert id
      (BitVec.ofInt 32 TGConversationPinnedDateBase + BitVec.ofNat 32 pinned.length) := by
  have hnext : ∀ (given : PinnedDates × BitVec 32) (peerIds : List ℤ),
      (peerIds.foldl (fun (given : PinnedDates × BitVec 32) nPeerId =>
        (given.1.insert nPeerId given.2, given.2 + 1)) given).2 =
      given.2 + BitVec.ofNat 32 peerIds.length := by
    intro given peerIds
    induction peerIds generalizing given with
    | nil => exact (BitVec.add_zero _).symm
    | cons peerId peerIds ih =>
        rw [List.foldl_cons, ih, List.length_cons, Nat.add_comm, BitVec.ofNat_add,
          BitVec.add_assoc]
        rfl
  rw [datesOf, List.reverse_cons, List.foldl_append, List.foldl_cons, List.foldl_nil, hnext,
    List.length_reverse]
  rfl

/-- The conversations of a list have dates and no others. -/
theorem keys_datesOf (h : pinned.Nodup) : (datesOf pinned).keys = pinned := by
  induction pinned with
  | nil => rfl
  | cons id pinned ih =>
      have hrest := ih h.of_cons
      rw [datesOf_cons, AList.keys_insert, hrest,
        List.erase_of_not_mem (List.nodup_cons.mp h).1]

/-- The date of the conversation at a place. -/
theorem date_datesOf (h : pinned.Nodup) {i : ℕ} (hi : i < pinned.length) :
    (datesOf pinned).date pinned[i] = BitVec.ofInt 32 TGConversationPinnedDateBase +
      BitVec.ofNat 32 (pinned.length - 1 - i) := by
  induction pinned generalizing i with
  | nil => exact absurd hi (Nat.not_lt_zero i)
  | cons id pinned ih =>
      rw [datesOf_cons, date]
      cases i with
      | zero => rw [List.getElem_cons_zero, AList.lookup_insert, Option.getD_some]; rfl
      | succ i =>
          have hi' : i < pinned.length := Nat.lt_of_succ_lt_succ hi
          have hne : pinned[i] ≠ id := fun heq =>
            (List.nodup_cons.mp h).1 (heq ▸ List.getElem_mem hi')
          rw [List.getElem_cons_succ, AList.lookup_insert_ne hne, ← date, ih h.of_cons hi',
            List.length_cons]
          congr 2
          omega

/-- A date that is in the range. -/
theorem toInt_date {n : ℕ} (hn : n < 547483648) :
    (BitVec.ofInt 32 TGConversationPinnedDateBase + BitVec.ofNat 32 n).toInt = 1600000000 + n := by
  have hbase : (BitVec.ofInt 32 TGConversationPinnedDateBase).toInt = 1600000000 := rfl
  have hplace : (BitVec.ofNat 32 n).toInt = n := by
    rw [BitVec.toInt_ofNat', Int.bmod_eq_of_le (by omega) (by omega)]
  rw [BitVec.toInt_add, hbase, hplace, Int.bmod_eq_of_le (by omega) (by omega)]

/-- **The dates descend along a list exactly when they do not run out.** -/
theorem datesOf_descend_iff (h : pinned.Nodup) :
    (pinned.Pairwise fun id next =>
      ((datesOf pinned).date next).toInt < ((datesOf pinned).date id).toInt) ↔
    pinned.length ≤ 547483648 := by
  rw [List.pairwise_iff_getElem]
  constructor
  · intro hdescend
    by_contra hmany
    have hlast := hdescend (pinned.length - 547483649) (pinned.length - 547483648) (by omega)
      (by omega) (by omega)
    rw [date_datesOf h, date_datesOf h,
      show pinned.length - 1 - (pinned.length - 547483648) = 547483647 by omega,
      show pinned.length - 1 - (pinned.length - 547483649) = 547483648 by omega] at hlast
    exact absurd hlast (by decide)
  · intro hfew i j hi hj hij
    rw [date_datesOf h, date_datesOf h, toInt_date (by omega), toInt_date (by omega)]
    omega

/-- **The dates of a list give the list back**, as far as it loads. -/
theorem getPinned_datesOf (h : pinned.Nodup) (hfew : pinned.length ≤ 547483648) :
    (datesOf pinned).getPinnedConversations loads = pinned.filter loads := by
  rw [getPinnedConversations, keys_datesOf h, List.mergeSort_of_pairwise]
  refine ((datesOf_descend_iff h).mpr hfew).imp fun {id next} hlt => ?_
  rw [Bool.not_eq_true', BitVec.slt_eq_decide, decide_eq_false_iff_not]
  exact not_lt.mpr hlt.le

/-- A conversation is pinned once. -/
theorem nodup_getPinned (loads : ℤ → Bool) (dates : PinnedDates) :
    (dates.getPinnedConversations loads).Nodup :=
  ((List.mergeSort_perm _ _).nodup_iff.mpr dates.keys_nodup).filter _

/-- What is pinned loads. -/
theorem loads_of_mem_getPinned (h : id ∈ dates.getPinnedConversations loads) : loads id = true :=
  (List.mem_filter.mp h).2

/-! ### The missing secret chats -/

/-- The secret chats that are put back are the missing ones. -/
theorem foldl_secretChats {previous current : List ℤ} (hnodup : previous.Nodup)
    (hcurrent : ∀ id ∈ previous, current.contains id = updated.contains id) (start : ℕ) :
    ((previous.zipIdx start).filter fun entry => TGPeerIdIsSecretChat entry.1).foldl
      (fun updated entry =>
        if updated.contains entry.1 then updated
        else updated.insertIdx (min entry.2 (updated.length - 1)) entry.1) current =
    ((previous.zipIdx start).filter fun entry => isMissing updated entry.1).foldl putBack
      current := by
  induction previous generalizing current start with
  | nil => rfl
  | cons peerId previous ih =>
      have hhead := hcurrent peerId List.mem_cons_self
      have hskip := ih hnodup.of_cons
        (fun id hid => hcurrent id (List.mem_cons_of_mem _ hid)) (start + 1)
      rw [List.zipIdx_cons]
      cases hsecret : TGPeerIdIsSecretChat peerId with
      | false =>
          rw [List.filter_cons_of_neg (by rw [hsecret]; exact nofun),
            List.filter_cons_of_neg (by rw [isMissing, hsecret]; exact nofun)]
          exact hskip
      | true =>
          rw [List.filter_cons_of_pos (by exact hsecret), List.foldl_cons]
          cases hmem : updated.contains peerId with
          | true =>
              rw [if_pos (hhead.trans hmem),
                List.filter_cons_of_neg (by rw [isMissing, hsecret, hmem]; exact nofun)]
              exact hskip
          | false =>
              rw [if_neg (by rw [hhead, hmem]; exact nofun),
                List.filter_cons_of_pos (by rw [isMissing, hsecret, hmem]; rfl), List.foldl_cons,
                ← putBack]
              refine ih hnodup.of_cons (fun id hid => ?_) (start + 1)
              have hne : id ≠ peerId := fun heq => (List.nodup_cons.mp hnodup).1 (heq ▸ hid)
              rw [← hcurrent id (List.mem_cons_of_mem _ hid), putBack, Bool.eq_iff_iff,
                List.contains_iff_mem, List.contains_iff_mem,
                List.mem_insertIdx (by omega), or_iff_right hne]

/-- The new list with the missing secret chats put back. -/
theorem updatedPinned_eq_foldl (loads : ℤ → Bool) (dates : PinnedDates) (updated : List ℤ) :
    dates.updatedPinned loads false updated =
      (((dates.getPinnedConversations loads).zipIdx 0).filter
        fun entry => isMissing updated entry.1).foldl putBack updated := by
  rw [updatedPinned, Transaction.updatedPinnedPeerIds, if_neg nofun]
  exact foldl_secretChats (nodup_getPinned loads dates) (fun _ _ => rfl) 0

/-- **The missing secret chats are woven into a new list that is not empty.** -/
theorem updatedPinned_eq (loads : ℤ → Bool) (dates : PinnedDates) (h : updated ≠ []) :
    dates.updatedPinned loads false updated =
      weave (isMissing updated) 0 updated (dates.getPinnedConversations loads) := by
  rw [updatedPinned_eq_foldl]
  exact foldl_putBack h [] 0

/-- What is missing is a secret chat and not in the new list. -/
theorem isMissing_eq_true : isMissing updated id = true ↔
    TGPeerIdIsSecretChat id = true ∧ updated.contains id = false := by
  rw [isMissing, Bool.and_eq_true, Bool.not_eq_true']

/-- What is in the new list is not missing. -/
theorem isMissing_of_mem (h : id ∈ updated) : isMissing updated id = false := by
  rw [isMissing, List.contains_iff_mem.mpr h, Bool.not_true, Bool.and_false]

/-- What is missing is not missing twice. -/
theorem nodup_missing (loads : ℤ → Bool) (dates : PinnedDates) (updated : List ℤ) :
    (missingSecretChats (dates.getPinnedConversations loads) updated).Nodup :=
  (nodup_getPinned loads dates).filter _

/-- The entries of the missing secret chats. -/
theorem map_fst_entries (previous updated : List ℤ) (start : ℕ) :
    ((previous.zipIdx start).filter fun entry => isMissing updated entry.1).map Prod.fst =
      missingSecretChats previous updated := by
  have hfilter := List.filter_map (p := isMissing updated) (f := Prod.fst)
    (l := previous.zipIdx start)
  rw [List.zipIdx_map_fst] at hfilter
  exact hfilter.symm

/-- An empty new list keeps the order of at most one missing secret chat. -/
theorem updatedPinned_nil_iff (loads : ℤ → Bool) (dates : PinnedDates) :
    dates.updatedPinned loads false [] =
        missingSecretChats (dates.getPinnedConversations loads) [] ↔
      (missingSecretChats (dates.getPinnedConversations loads) []).length ≤ 1 := by
  have hentries := map_fst_entries (dates.getPinnedConversations loads) [] 0
  rw [updatedPinned_eq_foldl, ← hentries, foldl_putBack_nil_iff, List.length_map]
  rw [hentries]
  exact nodup_missing loads dates []

/-! ### Order, dates and repetition -/

/-- Both lists are there in order exactly when there is a place for the missing secret chats. -/
theorem ordered_iff (loads : ℤ → Bool) (dates : PinnedDates) (updated : List ℤ) :
    (dates.updatedPinned loads false updated).filter updated.contains = updated ∧
      (dates.updatedPinned loads false updated).filter (fun id => !updated.contains id) =
        missingSecretChats (dates.getPinnedConversations loads) updated ↔
    updated ≠ [] ∨
      (missingSecretChats (dates.getPinnedConversations loads) updated).length ≤ 1 := by
  rcases eq_or_ne updated [] with rfl | hne
  · rw [or_iff_right (fun h => h rfl), ← updatedPinned_nil_iff]
    have hnone : (dates.updatedPinned loads false []).filter (List.contains []) = [] :=
      List.filter_eq_nil_iff.mpr fun _ _ => nofun
    have hall : (dates.updatedPinned loads false []).filter (fun id => !List.contains [] id) =
        dates.updatedPinned loads false [] := List.filter_eq_self.mpr fun _ _ => rfl
    rw [hnone, hall, and_iff_right rfl]
  · refine iff_of_true ?_ (Or.inl hne)
    rw [updatedPinned_eq loads dates hne]
    constructor
    · refine filter_weave (fun _ hid => List.contains_iff_mem.mpr hid) (fun id hmissing => ?_) 0
      exact (isMissing_eq_true.mp hmissing).2
    · refine filter_not_weave (fun _ hid => ?_) (fun id hmissing => ?_) 0
      · rw [List.contains_iff_mem.mpr hid, Bool.not_true]
      · rw [(isMissing_eq_true.mp hmissing).2, Bool.not_false]

/-- A list of the new conversations and the missing ones has each of them once. -/
theorem nodup_of_ordered {result missing : List ℤ} (hupdated : updated.Nodup)
    (hmissing : missing.Nodup) (hnew : result.filter updated.contains = updated)
    (hsecret : result.filter (fun id => !updated.contains id) = missing) : result.Nodup := by
  have hperm := List.filter_append_perm updated.contains result
  rw [hnew, hsecret] at hperm
  refine hperm.nodup_iff.mp (List.nodup_append'.mpr ⟨hupdated, hmissing, fun id hid hin => ?_⟩)
  rw [← hsecret, List.mem_filter, List.contains_iff_mem.mpr hid] at hin
  exact absurd hin.2 nofun

/-- How many are pinned then. -/
theorem length_of_ordered {result missing : List ℤ}
    (hnew : result.filter updated.contains = updated)
    (hsecret : result.filter (fun id => !updated.contains id) = missing) :
    result.length = updated.length + missing.length := by
  rw [← hsecret, ← (List.filter_append_perm updated.contains result).length_eq,
    List.length_append, hnew]

/-- **Doing it again changes nothing** when the conversations before the last missing secret chat
load, and only then. -/
theorem again_iff (hne : updated ≠ [])
    (hnodup : (dates.updatedPinned loads false updated).Nodup)
    (hfew : (dates.updatedPinned loads false updated).length ≤ 547483648) :
    (dates.replacePinned loads false updated).updatedPinned loads false updated =
        dates.updatedPinned loads false updated ↔
      ∀ id ∈ updated.dropLast.take
        (othersBefore (isMissing updated) (dates.getPinnedConversations loads)),
          loads id = true := by
  rw [updatedPinned_eq _ _ hne, replacePinned, getPinned_datesOf hnodup hfew,
    updatedPinned_eq _ _ hne, List.dropLast_eq_take, List.take_take, ← wovenBefore_zero]
  exact weave_again_iff (fun id hid => isMissing_of_mem hid) hne
    (fun id hid _ => loads_of_mem_getPinned hid) 0

/-- An empty new list, again. -/
theorem again_nil (hone : (missingSecretChats (dates.getPinnedConversations loads) []).length ≤ 1) :
    (dates.replacePinned loads false []).updatedPinned loads false [] =
      dates.updatedPinned loads false [] := by
  have hresult := (updatedPinned_nil_iff loads dates).mpr hone
  have hagain : (dates.replacePinned loads false []).getPinnedConversations loads =
      dates.updatedPinned loads false [] := by
    rw [replacePinned, hresult, getPinned_datesOf (nodup_missing loads dates []) (by omega)]
    exact List.filter_eq_self.mpr fun id hid =>
      loads_of_mem_getPinned (List.mem_of_mem_filter hid)
  have hmissing : missingSecretChats (dates.updatedPinned loads false []) [] =
      dates.updatedPinned loads false [] := by
    rw [hresult, missingSecretChats, missingSecretChats, List.filter_filter]
    simp only [Bool.and_self]
  have hthen := updatedPinned_nil_iff loads (dates.replacePinned loads false [])
  rw [hagain, hmissing, hresult] at hthen
  rw [hresult]
  exact hthen.mpr hone

/-- **key result**: the new conversations and the missing secret chats are pinned in order and
once, a repetition changes nothing and the dates descend, exactly when there is room for the
missing chats, for every earlier list and every list of distinct conversations. -/
theorem pinnedKept_iff (loads : ℤ → Bool) (dates : PinnedDates) (updated : List ℤ)
    (hupdated : updated.Nodup) :
    PinnedKept loads dates updated ↔
      RoomForMissing loads (dates.getPinnedConversations loads) updated := by
  constructor
  · rintro ⟨hnew, hsecret, honce, hagain, -, hdescend⟩
    have hlength := length_of_ordered hnew hsecret
    have hfew := (datesOf_descend_iff honce).mp hdescend
    refine ⟨(ordered_iff loads dates updated).mp ⟨hnew, hsecret⟩, ?_, hlength ▸ hfew⟩
    rcases eq_or_ne updated [] with rfl | hne
    · rw [List.dropLast_nil, List.take_nil]
      exact fun id hid => absurd hid List.not_mem_nil
    · exact (again_iff hne honce hfew).mp hagain
  · rintro ⟨hplace, hloaded, hfew⟩
    obtain ⟨hnew, hsecret⟩ := (ordered_iff loads dates updated).mpr hplace
    have honce := nodup_of_ordered hupdated (nodup_missing loads dates updated) hnew hsecret
    rw [← length_of_ordered hnew hsecret] at hfew
    refine ⟨hnew, hsecret, honce, ?_, fun id => ?_, (datesOf_descend_iff honce).mpr hfew⟩
    · rcases eq_or_ne updated [] with rfl | hne
      · exact again_nil (hplace.resolve_left fun h => h rfl)
      · exact (again_iff hne honce hfew).mpr hloaded
    · rw [replacePinned, AList.mem_keys, keys_datesOf honce]

/-- One conversation is pinned in place of another, and a secret chat stays. -/
theorem pinnedKept_three :
    [7].Nodup ∧ (PinnedKept (fun _ => true) (datesOf [5, -2147483649]) [7] ↔
      RoomForMissing (fun _ => true)
        ((datesOf [5, -2147483649]).getPinnedConversations fun _ => true) [7]) :=
  ⟨List.nodup_singleton 7, pinnedKept_iff _ _ _ (List.nodup_singleton 7)⟩

/-- When the server sends an empty list, two secret chats change places. -/
theorem not_pinnedKept_nil :
    ¬ PinnedKept (fun _ => true) (datesOf [-2147483649, -2147483650]) [] := by
  intro h
  have hsecret := h.secretOrder
  rw [updatedPinned, getPinned_datesOf (by decide) (by decide)] at hsecret
  exact absurd hsecret (by decide)

end PinnedDates

end Telegraph.Messages
