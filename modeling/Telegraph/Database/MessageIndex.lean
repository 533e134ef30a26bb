import Telegraph.Lib.Machine
import Mathlib.Data.List.Basic
import Mathlib.Algebra.Order.Group.Nat

/-!
# The Search Index of Secret Chats

The texts of secret messages are in a search index beside the table of messages. Messages that are
removed are deleted from the index in blocks of 20 ids. The loop over the blocks and the loop that
collects a block advance the same counter, and the outer one advances it once more: behind every
block one id is left out.

## Main results

* `deleteBlocks_eq`: which ids the blocks have, by their index in the list.
* `mem_indexBlocks`: an id is deleted exactly if it has an index that is not 20 modulo 21.
* `indexStored_step`: what one step keeps.
* `index_follows_messages`: **every removed id is deleted from the index exactly if those at the
  indexes 20, 41, 62 and so on are listed elsewhere as well**, and then the index has stored
  messages only.
* `index_keeps_removed`: of 21 messages that are removed, the last stays in the index.
-/

namespace Telegraph.Database

open Machine

/-! ### The blocks -/

section Blocks

variable (ids : List ℤ)

/-- The loops over the ids from index `i` on: each pass runs one `DELETE`, of a block of 20 ids,
and leaves the counter one behind the block. -/
def deleteBlocks : ℕ → ℕ → Option (List (List ℤ))
  | 0, i => if i < ids.length then none else some []
  | passes + 1, i =>
      if i < ids.length then do
        let block := (ids.drop i).take 20
        let blocks ← deleteBlocks passes (i + block.length + 1)
        some (block :: blocks)
      else some []

/-- The id lists of the `DELETE`s that are run. -/
def indexBlocks : List (List ℤ) := (deleteBlocks ids ids.length 0).getD []

/-- Every id that the counter steps over is listed elsewhere as well. -/
def Covered : Prop :=
  ∀ k id, ids[21 * k + 20]? = some id → ∃ p, p % 21 ≠ 20 ∧ ids[p]? = some id

end Blocks

section Ids

variable {ids : List ℤ} {id : ℤ} {passes i : ℕ}

/-- **Which ids the blocks have**: from the index where the loop starts, all but each 21st. The
loop ends, and no block is empty. -/
theorem deleteBlocks_eq (hpasses : ids.length ≤ i + passes) :
    ∃ blocks, deleteBlocks ids passes i = some blocks ∧ (∀ block ∈ blocks, block ≠ []) ∧
      ∀ id, (∃ block ∈ blocks, id ∈ block) ↔ ∃ k, k % 21 ≠ 20 ∧ ids[i + k]? = some id := by
  induction passes generalizing i with
  | zero =>
      refine ⟨[], by rw [deleteBlocks, if_neg (by omega)], by simp, fun id => ?_⟩
      have hnone : ∀ k, ids[i + k]? = none := fun k => List.getElem?_eq_none (by omega)
      simp [hnone]
  | succ passes ih =>
      by_cases hi : i < ids.length
      · obtain ⟨blocks, hblocks, hnonempty, hmem⟩ :=
          ih (i := i + ((ids.drop i).take 20).length + 1) (by
            rw [List.length_take, List.length_drop]
            omega)
        refine ⟨(ids.drop i).take 20 :: blocks, ?_, ?_, fun id => ?_⟩
        · simp only [deleteBlocks, if_pos hi, hblocks, Option.bind_eq_bind, Option.bind_some]
        · intro block hblock
          rcases List.mem_cons.mp hblock with rfl | hblock
          · intro hempty
            have hlength := congrArg List.length hempty
            rw [List.length_take, List.length_drop, List.length_nil] at hlength
            omega
          · exact hnonempty block hblock
        · have hblock : id ∈ (ids.drop i).take 20 ↔ ∃ k < 20, ids[i + k]? = some id := by
            rw [List.mem_iff_getElem?]
            refine exists_congr fun k => ?_
            rw [List.getElem?_take, List.getElem?_drop, Option.ite_none_right_eq_some]
          have hrest : (∃ block ∈ blocks, id ∈ block) ↔
              ∃ k, k % 21 ≠ 20 ∧ ids[i + 21 + k]? = some id := by
            rw [hmem id]
            refine exists_congr fun k => and_congr_right fun _ => ?_
            rw [List.length_take, List.length_drop]
            rcases Nat.le_total 20 (ids.length - i) with hfull | hshort
            · rw [Nat.min_eq_left hfull, Nat.add_assoc i 20 1]
            · rw [Nat.min_eq_right hshort, List.getElem?_eq_none (by omega),
                List.getElem?_eq_none (by omega)]
          simp only [List.mem_cons, exists_eq_or_imp, hblock, hrest]
          constructor
          · rintro (⟨k, hk, hid⟩ | ⟨k, hk, hid⟩)
            · exact ⟨k, by omega, hid⟩
            · exact ⟨21 + k, by omega, by rwa [← Nat.add_assoc]⟩
          · rintro ⟨k, hk, hid⟩
            rcases Nat.lt_or_ge k 20 with hlt | hge
            · exact .inl ⟨k, hlt, hid⟩
            · have hne : k ≠ 20 := by
                rintro rfl
                exact hk rfl
              refine .inr ⟨k - 21, by omega, ?_⟩
              rwa [Nat.add_assoc, Nat.add_sub_cancel' (by omega)]
      · refine ⟨[], by rw [deleteBlocks, if_neg hi], by simp, fun id => ?_⟩
        have hnone : ∀ k, ids[i + k]? = none := fun k => List.getElem?_eq_none (by omega)
        simp [hnone]

/-- An id is deleted exactly if it has an index that is not 20 modulo 21. -/
theorem mem_indexBlocks :
    (∃ block ∈ indexBlocks ids, id ∈ block) ↔ ∃ p, p % 21 ≠ 20 ∧ ids[p]? = some id := by
  have hpasses : ids.length ≤ 0 + ids.length := by omega
  obtain ⟨blocks, hblocks, -, hmem⟩ := deleteBlocks_eq hpasses
  rw [indexBlocks, hblocks, Option.getD_some, hmem id]
  simp only [Nat.zero_add]

/-- Every id is deleted exactly if those that the counter steps over are listed elsewhere. -/
theorem covered_iff : (∀ id ∈ ids, ∃ block ∈ indexBlocks ids, id ∈ block) ↔ Covered ids := by
  simp only [mem_indexBlocks, Covered]
  constructor
  · intro h k id hid
    exact h id (List.mem_of_getElem? hid)
  · intro h id hid
    obtain ⟨p, hp⟩ := List.mem_iff_getElem?.mp hid
    by_cases hstep : p % 21 = 20
    · refine h (p / 21) id ?_
      rwa [← hstep, Nat.div_add_mod]
    · exact ⟨p, hstep, hp⟩

end Ids

/-! ### Messages and their texts -/

/-- What adding a secret message looks at: its id, whether it clears the chat, and the text of its
attachments or of itself. -/
structure SecretMessage where
  mid : ℤ
  clearsChat : Bool
  text : String
deriving DecidableEq

/-- The table of messages, ids with conversation ids, and the ids in the index. -/
structure MessageStore where
  messages : List (ℤ × ℤ)
  index : List ℤ
deriving DecidableEq

/-- What is done to the messages of secret chats. -/
inductive MessageEvent where
  | add (peerId : ℤ) (messages : List SecretMessage)
  | remove (messageIds : List ℤ)
  | clear (peerId : ℤ)
deriving DecidableEq

namespace MessageStore

/-- A row is inserted, unless there is one with the id, its primary key. -/
def insertMessage (rows : List (ℤ × ℤ)) (mid cid : ℤ) : List (ℤ × ℤ) :=
  if ∃ row ∈ rows, row.1 = mid then rows else rows ++ [(mid, cid)]

/-- A message is stored, unless it clears the chat, and its text is indexed, unless it has none
or its id is in the index already. -/
def addMessage (peerId : ℤ) (s : MessageStore) (message : SecretMessage) : MessageStore where
  messages :=
    if message.clearsChat then s.messages else insertMessage s.messages message.mid peerId
  index :=
    if message.mid ∈ s.index ∨ message.text = "" then s.index else s.index ++ [message.mid]

/-- `_addMessages:`, of one secret chat. The index has a database of its own, and is written behind
the table. -/
def addMessages (s : MessageStore) (peerId : ℤ) (messages : List SecretMessage) : MessageStore :=
  messages.foldl (addMessage peerId) s

/-- The `DELETE`s on the index. -/
def deleteFromIndex (index messageIds : List ℤ) : List ℤ :=
  (indexBlocks messageIds).foldl (fun index block => index.filter (· ∉ block)) index

/-- `_removeMessages:`, of one secret chat. -/
def removeMessages (s : MessageStore) (messageIds : List ℤ) : MessageStore where
  messages := s.messages.filter fun row => row.1 ∉ messageIds
  index := deleteFromIndex s.index messageIds

/-- The messages of a conversation. -/
def midsInConversation (s : MessageStore) (peerId : ℤ) : List ℤ :=
  (s.messages.filter fun row => row.2 = peerId).map Prod.fst

/-- `_removeMessagesFromConversationsWithPeerIds:`, of one conversation. -/
def removeMessagesFromConversation (s : MessageStore) (peerId : ℤ) : MessageStore where
  messages := s.messages.filter fun row => row.2 ≠ peerId
  index := deleteFromIndex s.index (s.midsInConversation peerId)

/-- The messages after an event, with its work on the index done. -/
def step (s : MessageStore) : MessageEvent → MessageStore
  | .add peerId messages => s.addMessages peerId messages
  | .remove messageIds => s.removeMessages messageIds
  | .clear peerId => s.removeMessagesFromConversation peerId

/-- The index has stored messages only. -/
def IndexStored (s : MessageStore) : Prop := ∀ mid ∈ s.index, ∃ row ∈ s.messages, row.1 = mid

/-- The removed ids that the counter steps over are listed elsewhere as well, and a message that
clears the chat has no text. -/
def Covers (s : MessageStore) : MessageEvent → Prop
  | .add _ messages => ∀ message ∈ messages, message.clearsChat → message.text = ""
  | .remove messageIds => Covered messageIds
  | .clear peerId => Covered (s.midsInConversation peerId)

variable {s : MessageStore} {mid : ℤ}

theorem mem_deleteFromIndex {index ids : List ℤ} :
    mid ∈ deleteFromIndex index ids ↔ mid ∈ index ∧ ¬ ∃ block ∈ indexBlocks ids, mid ∈ block := by
  rw [deleteFromIndex]
  induction indexBlocks ids generalizing index with
  | nil => simp
  | cons block blocks ih =>
      rw [List.foldl_cons, ih, List.mem_filter, and_assoc, decide_eq_true_eq, ← not_or]
      simp only [List.mem_cons, exists_eq_or_imp]

/-- What is left in the index after covered ids have been deleted is not one of them. -/
theorem not_mem_of_mem_deleteFromIndex {index ids : List ℤ} (hcovered : Covered ids)
    (h : mid ∈ deleteFromIndex index ids) : mid ∈ index ∧ mid ∉ ids := by
  obtain ⟨hindex, hblocks⟩ := mem_deleteFromIndex.mp h
  exact ⟨hindex, fun hmem => hblocks (covered_iff.mpr hcovered mid hmem)⟩

/-- A row that is inserted is there, and so are those before. -/
theorem exists_insertMessage {rows : List (ℤ × ℤ)} {other cid : ℤ} :
    (∃ row ∈ insertMessage rows other cid, row.1 = mid) ↔
      (∃ row ∈ rows, row.1 = mid) ∨ other = mid := by
  rw [insertMessage]
  split
  · next hmem =>
      refine (or_iff_left_of_imp ?_).symm
      rintro rfl
      exact hmem
  · simp [or_and_right, exists_or]

/-- Adding a message stores it if it is indexed. -/
theorem indexStored_addMessage (peerId : ℤ) {message : SecretMessage} (h : s.IndexStored)
    (hcovers : message.clearsChat → message.text = "") :
    (addMessage peerId s message).IndexStored := by
  intro mid hmid
  have hold : mid ∈ s.index ∨ (message.text ≠ "" ∧ mid = message.mid) := by
    simp only [addMessage] at hmid
    split at hmid
    · exact .inl hmid
    · next hnew =>
        refine (List.mem_append.mp hmid).imp_right fun hlast => ?_
        exact ⟨fun htext => hnew (.inr htext), List.mem_singleton.mp hlast⟩
  simp only [addMessage]
  split
  · next hclears =>
      rcases hold with hold | ⟨htext, -⟩
      · exact h mid hold
      · exact absurd (hcovers hclears) htext
  · rw [exists_insertMessage]
    exact hold.imp (h mid) fun hnew => hnew.2.symm

/-- Adding messages stores what it indexes. -/
theorem indexStored_addMessages (peerId : ℤ) {messages : List SecretMessage}
    (h : s.IndexStored) (hcovers : ∀ message ∈ messages, message.clearsChat → message.text = "") :
    (s.addMessages peerId messages).IndexStored := by
  induction messages generalizing s with
  | nil => exact h
  | cons message messages ih =>
      exact ih (indexStored_addMessage peerId h (hcovers message List.mem_cons_self))
        fun other hother => hcovers other (.tail _ hother)

/-- **What one step keeps.** -/
theorem indexStored_step {event : MessageEvent} (h : s.IndexStored) (hcovers : s.Covers event) :
    (s.step event).IndexStored := by
  cases event with
  | add peerId messages => exact indexStored_addMessages peerId h hcovers
  | remove messageIds =>
      intro mid hmid
      obtain ⟨hindex, hids⟩ := not_mem_of_mem_deleteFromIndex hcovers hmid
      obtain ⟨row, hrow, rfl⟩ := h mid hindex
      exact ⟨row, List.mem_filter.mpr ⟨hrow, decide_eq_true hids⟩, rfl⟩
  | clear peerId =>
      intro mid hmid
      obtain ⟨hindex, hids⟩ := not_mem_of_mem_deleteFromIndex hcovers hmid
      obtain ⟨row, hrow, rfl⟩ := h mid hindex
      refine ⟨row, List.mem_filter.mpr ⟨hrow, decide_eq_true fun hpeer => hids ?_⟩, rfl⟩
      exact List.mem_map_of_mem (List.mem_filter.mpr ⟨hrow, decide_eq_true hpeer⟩)

/-- **Every removed id is deleted from the index exactly if those that the counter steps over are
listed elsewhere**; the loop ends, no `DELETE` is empty, and in every run that removes such lists
only, the index has stored messages only. -/
theorem index_follows_messages (ids : List ℤ) (s : MessageStore) (events : List MessageEvent) :
    ((∀ id ∈ ids, ∃ block ∈ indexBlocks ids, id ∈ block) ↔ Covered ids) ∧
    (∃ blocks, deleteBlocks ids ids.length 0 = some blocks ∧ ∀ block ∈ blocks, block ≠ []) ∧
    (IndexStored s → AllSteps step Covers s events → Always step IndexStored s events) := by
  refine ⟨covered_iff, ?_, fun h hcovers => ?_⟩
  · have hpasses : ids.length ≤ 0 + ids.length := by omega
    obtain ⟨blocks, hblocks, hnonempty, -⟩ := deleteBlocks_eq hpasses
    exact ⟨blocks, hblocks, hnonempty⟩
  · exact always_of_allSteps (fun s event h hcall => indexStored_step h hcall) h hcovers

/-- Two messages are added, and removed again. -/
theorem index_follows_two : Always step IndexStored ⟨[], []⟩
    [.add 7 [⟨1, false, "one"⟩, ⟨2, false, "two"⟩], .remove [1, 2]] := by
  refine (index_follows_messages [] _ _).2.2 (by simp [IndexStored]) ⟨by simp [Covers], ?_, trivial⟩
  intro k id hid
  rw [List.getElem?_eq_none (by simp)] at hid
  cases hid

/-- Of 21 messages that are removed, the last stays in the index. -/
theorem index_keeps_removed :
    let messages := (List.range 21).map fun n => (⟨n, false, "text"⟩ : SecretMessage)
    let ids := messages.map SecretMessage.mid
    (¬ ∀ id ∈ ids, ∃ block ∈ indexBlocks ids, id ∈ block) ∧
      ¬ Always step IndexStored ⟨[], []⟩ [.add 7 messages, .remove ids] := by
  refine ⟨by decide +kernel, fun h => ?_⟩
  obtain ⟨row, hrow, -⟩ := h.2.2 20 (by decide +kernel)
  exact absurd hrow (by
    have hempty : (run step ⟨[], []⟩ [.add 7 ((List.range 21).map fun n =>
      (⟨n, false, "text"⟩ : SecretMessage)), .remove (((List.range 21).map fun n =>
        (⟨n, false, "text"⟩ : SecretMessage)).map SecretMessage.mid)]).messages = [] := by
      decide +kernel
    exact hempty ▸ List.not_mem_nil)

end MessageStore

end Telegraph.Database
