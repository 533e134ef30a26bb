import Mathlib.Data.Finset.Basic
import Mathlib.Data.Finset.Dedup
import Mathlib.Data.Finset.Lattice.Lemmas
import Telegraph.Lib.Machine

/-!
# The Cache of Remote Contacts

`TGDatabase` keeps the uids of the contact table in a set as well, and answers from the set unless
it is empty, which it takes for not loaded yet. Every writer edits set and table separately; the
work on the database is done in the order of the calls.

## Main results

* `answersRight_iff`: the answers are right exactly if the set is empty or holds the table.
* `remoteContacts_agree`: **the answers are right throughout a run exactly if uids are added to an
  empty set only with the whole table.**
* `remoteContacts_disagree`: contacts added before the first query hide those of the table.
-/

namespace Telegraph.Database

open Machine

/-- A uid: an `int`. -/
abbrev Uid := BitVec 32

/-- The contact table, whose primary key is the uid, and the set beside it. -/
structure RemoteContacts where
  table : Finset Uid
  remoteContactUids : Finset Uid
deriving DecidableEq

/-- The calls that read or write the contacts. -/
inductive ContactCall where
  | loadRemoteContactUids
  | haveRemoteContactUids
  | uidIsRemoteContact (uid : Uid)
  | replaceRemoteContactUids (uids : List Uid)
  | addRemoteContactUids (uids : List Uid)
  | deleteRemoteContactUids (uids : List Uid)
deriving DecidableEq

namespace RemoteContacts

/-- `loadRemoteContactUids:`. -/
def loadRemoteContactUids (s : RemoteContacts) : RemoteContacts :=
  { s with remoteContactUids := s.table }

/-- `haveRemoteContactUids`: the answer, and the contacts after it. -/
def haveRemoteContactUids (s : RemoteContacts) : Bool × RemoteContacts :=
  if s.remoteContactUids ≠ ∅ then (true, s)
  else (decide (s.table ≠ ∅), s.loadRemoteContactUids)

/-- `uidIsRemoteContact:`: the answer, and the contacts after it. -/
def uidIsRemoteContact (s : RemoteContacts) (uid : Uid) : Bool × RemoteContacts :=
  if s.remoteContactUids ≠ ∅ then (decide (uid ∈ s.remoteContactUids), s)
  else (decide (uid ∈ s.table), s.loadRemoteContactUids)

/-- `replaceRemoteContactUids:`; a uid that is given twice violates the primary key once. -/
def replaceRemoteContactUids (_s : RemoteContacts) (uids : List Uid) : RemoteContacts where
  table := uids.toFinset
  remoteContactUids := uids.toFinset

/-- `addRemoteContactUids:`. -/
def addRemoteContactUids (s : RemoteContacts) (uids : List Uid) : RemoteContacts where
  table := s.table ∪ uids.toFinset
  remoteContactUids := s.remoteContactUids ∪ uids.toFinset

/-- `deleteRemoteContactUids:`, which clears the set before it erases the uids from it. -/
def deleteRemoteContactUids (s : RemoteContacts) (uids : List Uid) : RemoteContacts where
  table := s.table \ uids.toFinset
  remoteContactUids := ∅ \ uids.toFinset

/-- The contacts after a call, with its work on the database done. -/
def step (s : RemoteContacts) : ContactCall → RemoteContacts
  | .loadRemoteContactUids => s.loadRemoteContactUids
  | .haveRemoteContactUids => s.haveRemoteContactUids.2
  | .uidIsRemoteContact uid => (s.uidIsRemoteContact uid).2
  | .replaceRemoteContactUids uids => s.replaceRemoteContactUids uids
  | .addRemoteContactUids uids => s.addRemoteContactUids uids
  | .deleteRemoteContactUids uids => s.deleteRemoteContactUids uids

/-- Both queries are answered as the table says. -/
structure AnswersRight (s : RemoteContacts) : Prop where
  isContact : ∀ uid, (s.uidIsRemoteContact uid).1 = true ↔ uid ∈ s.table
  haveContacts : s.haveRemoteContactUids.1 = true ↔ s.table ≠ ∅

/-- Uids are added to an empty set only if the table has no others. -/
def AddsToLoaded (s : RemoteContacts) (call : ContactCall) : Prop :=
  ∀ uids, call = .addRemoteContactUids uids → s.remoteContactUids = ∅ → uids ≠ [] →
    s.table ⊆ uids.toFinset

variable {s : RemoteContacts} {call : ContactCall}

/-- The answers are right exactly if the set is empty or holds the table. -/
theorem answersRight_iff :
    s.AnswersRight ↔ s.remoteContactUids = ∅ ∨ s.remoteContactUids = s.table := by
  constructor
  · rintro ⟨hcontact, -⟩
    by_cases hempty : s.remoteContactUids = ∅
    · exact .inl hempty
    · refine .inr (Finset.ext fun uid => ?_)
      rw [← hcontact uid, uidIsRemoteContact, if_pos hempty, decide_eq_true_eq]
  · intro h
    by_cases hempty : s.remoteContactUids = ∅
    · refine ⟨fun uid => ?_, ?_⟩
      · rw [uidIsRemoteContact, if_neg (not_not.mpr hempty), decide_eq_true_eq]
      · rw [haveRemoteContactUids, if_neg (not_not.mpr hempty), decide_eq_true_eq]
    · have heq := h.resolve_left hempty
      refine ⟨fun uid => ?_, ?_⟩
      · rw [uidIsRemoteContact, if_pos hempty, decide_eq_true_eq, heq]
      · rw [haveRemoteContactUids, if_pos hempty, ← heq]
        exact iff_of_true rfl hempty

/-- A query leaves the set as it is, or loads the table into it. -/
theorem remoteContactUids_query (s : RemoteContacts) (query : RemoteContacts)
    (hquery : query = s ∨ query = s.loadRemoteContactUids) (h : s.AnswersRight) :
    query.AnswersRight := by
  rcases hquery with rfl | rfl
  · exact h
  · exact answersRight_iff.mpr (.inr rfl)

/-- After a call the answers are right, if uids are added to the loaded set. -/
theorem answersRight_step (h : s.AnswersRight) (hcall : s.AddsToLoaded call) :
    (s.step call).AnswersRight := by
  cases call with
  | loadRemoteContactUids => exact answersRight_iff.mpr (.inr rfl)
  | haveRemoteContactUids =>
      refine remoteContactUids_query s _ ?_ h
      rw [step, haveRemoteContactUids]
      split
      · exact .inl rfl
      · exact .inr rfl
  | uidIsRemoteContact uid =>
      refine remoteContactUids_query s _ ?_ h
      rw [step, uidIsRemoteContact]
      split
      · exact .inl rfl
      · exact .inr rfl
  | replaceRemoteContactUids uids => exact answersRight_iff.mpr (.inr rfl)
  | addRemoteContactUids uids =>
      rw [answersRight_iff] at h ⊢
      simp only [step, addRemoteContactUids]
      rcases h with hempty | hloaded
      · rw [hempty, Finset.empty_union]
        by_cases huids : uids = []
        · exact .inl (by rw [huids, List.toFinset_nil])
        · exact .inr (Finset.union_eq_right.mpr (hcall uids rfl hempty huids)).symm
      · exact .inr (by rw [hloaded])
  | deleteRemoteContactUids uids =>
      refine answersRight_iff.mpr (.inl ?_)
      rw [step, deleteRemoteContactUids, Finset.empty_sdiff]

/-- If the answers are right after a call, no uids have been added to a set that is not loaded. -/
theorem addsToLoaded_of_answersRight (h : (s.step call).AnswersRight) : s.AddsToLoaded call := by
  rintro uids rfl hempty huids
  rw [answersRight_iff] at h
  simp only [step, addRemoteContactUids, hempty, Finset.empty_union] at h
  rcases h with hnone | heq
  · exact absurd (List.toFinset_eq_empty_iff uids |>.mp hnone) huids
  · rw [heq]
    exact Finset.subset_union_left

/-- **The answers are right throughout a run exactly if uids are added to an empty set only with
the whole table.** The run starts with any table, and nothing loaded. -/
theorem remoteContacts_agree (table : Finset Uid) (calls : List ContactCall) :
    Always step AnswersRight ⟨table, ∅⟩ calls ↔ AllSteps step AddsToLoaded ⟨table, ∅⟩ calls := by
  constructor
  · exact allSteps_of_always fun s call _ hstep => addsToLoaded_of_answersRight hstep
  · exact always_of_allSteps (fun s call h hcall => answersRight_step h hcall)
      (answersRight_iff.mpr (.inl rfl))

/-- A contact added before the first query hides the one of the table. -/
theorem remoteContacts_disagree :
    ¬ Always step AnswersRight ⟨{1}, ∅⟩ [.addRemoteContactUids [2]] := by
  rintro ⟨-, h⟩
  have hone := (h.isContact 1).mpr (by decide)
  exact absurd hone (by decide)

end RemoteContacts

end Telegraph.Database
