import Telegraph.Database.ConversationList
import Mathlib.Data.Finset.Basic
import Mathlib.Data.Finset.Lattice.Lemmas
import Mathlib.Data.List.Sort

/-!
# Pages of the Conversation List

What each query of `loadConversationListFromDate:…` adds to the array, why its loop ends, and
what is added after the loop.

## Main results

* `adds_loadRows`, `loadRows_complete`: what the rows of one query add.
* `loadPages_isSome`: **the loop ends.**
* `loadPages_mono`: its result does not depend on the fuel.
* `finishLoading_perm`: the part after the loop adds channels only.
-/

namespace Telegraph.Database

open Messages (TGPeerIdIsChannel)

/-! ### What is added -/

/-- `s'` is `s` with the conversations `more` added, each once and none of them in the set. -/
structure Adds (s s' : LoadState) (more : List TGConversation) : Prop where
  array : s'.array.Perm (s.array ++ more)
  ids : s'.excludeConversationIdsSet =
    s.excludeConversationIdsSet ∪ (more.map TGConversation.conversationId).toFinset
  nodup : (more.map TGConversation.conversationId).Nodup
  fresh : ∀ conversation ∈ more, conversation.conversationId ∉ s.excludeConversationIdsSet

section Adds

variable {s s' s'' : LoadState} {conversation : TGConversation} {more more' : List TGConversation}

/-- The same array and set. -/
theorem Adds.of_eq (harray : s'.array = s.array)
    (hids : s'.excludeConversationIdsSet = s.excludeConversationIdsSet) : Adds s s' [] where
  array := by rw [harray, List.append_nil]
  ids := by rw [hids, List.map_nil, List.toFinset_nil, Finset.union_empty]
  nodup := List.nodup_nil
  fresh := fun _ h => absurd h List.not_mem_nil

theorem Adds.refl : Adds s s [] := .of_eq rfl rfl

theorem Adds.add (h : conversation.conversationId ∉ s.excludeConversationIdsSet) :
    Adds s (s.add conversation) [conversation] where
  array := List.Perm.refl _
  ids := by
    rw [LoadState.add, List.map_cons, List.map_nil, List.toFinset_cons, List.toFinset_nil,
      insert_empty_eq, Finset.union_comm, Finset.insert_eq]
  nodup := List.nodup_singleton _
  fresh := by
    rintro _ (_ | _)
    · exact h
    · contradiction

theorem Adds.trans (h : Adds s s' more) (h' : Adds s' s'' more') :
    Adds s s'' (more ++ more') where
  array := by
    rw [← List.append_assoc]
    exact h'.array.trans (h.array.append_right more')
  ids := by
    rw [h'.ids, h.ids, List.map_append, List.toFinset_append, Finset.union_assoc]
  nodup := by
    rw [List.map_append]
    refine List.Nodup.append h.nodup h'.nodup fun id hid hid' => ?_
    obtain ⟨conversation, hmem, rfl⟩ := List.mem_map.mp hid'
    refine h'.fresh conversation hmem ?_
    rw [h.ids]
    exact Finset.mem_union_right _ (List.mem_toFinset.mpr hid)
  fresh := by
    intro conversation hmem
    rcases List.mem_append.mp hmem with hmem | hmem
    · exact h.fresh conversation hmem
    · intro hin
      refine h'.fresh conversation hmem ?_
      rw [h.ids]
      exact Finset.mem_union_left _ hin

theorem Adds.length (h : Adds s s' more) : s'.array.length = s.array.length + more.length := by
  rw [h.array.length_eq, List.length_append]

theorem Adds.subset (h : Adds s s' more) :
    s.excludeConversationIdsSet ⊆ s'.excludeConversationIdsSet := by
  rw [h.ids]
  exact Finset.subset_union_left

theorem Adds.mem (h : Adds s s' more) {id : ℤ} : id ∈ s'.excludeConversationIdsSet ↔
    id ∈ s.excludeConversationIdsSet ∨
      ∃ conversation ∈ more, conversation.conversationId = id := by
  rw [h.ids, Finset.mem_union, List.mem_toFinset, List.mem_map]

end Adds

/-! ### The rows of one query -/

section Rows

variable {limit fuel : ℕ} {following : Bool} {rows page : List ConversationRow} {s s' : LoadState}
  {row : ConversationRow}

/-- What the loop does at a row: it passes over it, stops after it, or goes on after it. -/
theorem loadRows_cons (limit : ℕ) (following : Bool) (row : ConversationRow)
    (page : List ConversationRow) (s : LoadState) : ∃ moved : LoadState,
      (Adds s moved [] ∧ moved.loadedAny = s.loadedAny ∧
        moved.upperBound =
          if following then (loadConversationFromDatabase row).date else s.upperBound) ∧
      ((row.isDeactivated = true ∨ row.cid ∈ moved.excludeConversationIdsSet) ∧
          loadRows limit following (row :: page) s = loadRows limit following page moved ∨
        (row.isDeactivated = false ∧ row.cid ∉ moved.excludeConversationIdsSet) ∧
          (limit ≤ (moved.add (loadConversationFromDatabase row)).array.length ∧
              loadRows limit following (row :: page) s =
                moved.add (loadConversationFromDatabase row) ∨
            loadRows limit following (row :: page) s =
              loadRows limit following page (moved.add (loadConversationFromDatabase row)))) := by
  refine ⟨if following then
    { s with upperBound := (loadConversationFromDatabase row).date } else s, ?_, ?_⟩
  · cases following
    · exact ⟨.refl, rfl, rfl⟩
    · exact ⟨.of_eq rfl rfl, rfl, rfl⟩
  · rw [loadRows]
    generalize (if following then
      { s with upperBound := (loadConversationFromDatabase row).date } else s) = moved
    split
    · next hdeactivated => exact Or.inl ⟨Or.inl hdeactivated, rfl⟩
    · next hactive =>
        split
        · next hin => exact Or.inl ⟨Or.inr hin, rfl⟩
        · next hnot =>
            refine Or.inr ⟨⟨Bool.eq_false_iff.mpr hactive, hnot⟩, ?_⟩
            split
            · next hfull => exact Or.inl ⟨hfull, rfl⟩
            · exact Or.inr rfl

/-- **What the rows of a query add**: some of them, none deactivated. -/
theorem adds_loadRows (limit : ℕ) (following : Bool) (page : List ConversationRow)
    (s : LoadState) : ∃ more : List ConversationRow,
      Adds s (loadRows limit following page s) (more.map loadConversationFromDatabase) ∧
      (∀ row ∈ more, row ∈ page ∧ row.isDeactivated = false) ∧
      (loadRows limit following page s).loadedAny = (s.loadedAny || !more.isEmpty) := by
  induction page generalizing s with
  | nil => exact ⟨[], .refl, fun _ h => absurd h List.not_mem_nil, by simp [loadRows]⟩
  | cons row page ih =>
      obtain ⟨moved, ⟨hmoved, hany, -⟩, ⟨-, heq⟩ | ⟨⟨hactive, hfresh⟩, ⟨-, heq⟩ | heq⟩⟩ :=
        loadRows_cons limit following row page s
      · obtain ⟨more, hadds, hmem, hloaded⟩ := ih moved
        rw [heq]
        exact ⟨more, hmoved.trans hadds, fun r hr => ⟨.tail _ (hmem r hr).1, (hmem r hr).2⟩,
          by rw [hloaded, hany]⟩
      · rw [heq]
        refine ⟨[row], hmoved.trans (.add hfresh), ?_, by simp [LoadState.add]⟩
        intro r hr
        rw [List.mem_singleton.mp hr]
        exact ⟨.head _, hactive⟩
      · obtain ⟨more, hadds, hmem, hloaded⟩ := ih (moved.add (loadConversationFromDatabase row))
        rw [heq]
        refine ⟨row :: more, (hmoved.trans (.add hfresh)).trans hadds, ?_, ?_⟩
        · rintro r (_ | ⟨_, hr⟩)
          · exact ⟨.head _, hactive⟩
          · exact ⟨.tail _ (hmem r hr).1, (hmem r hr).2⟩
        · simpa [LoadState.add] using hloaded

/-- Below the limit every row was looked at. -/
theorem loadRows_complete (hlimit : (loadRows limit following page s).array.length < limit) :
    ∀ row ∈ page, row.isDeactivated = false →
      row.cid ∈ (loadRows limit following page s).excludeConversationIdsSet := by
  induction page generalizing s with
  | nil => exact fun _ h => absurd h List.not_mem_nil
  | cons row page ih =>
      have hsubset (s' : LoadState) : s'.excludeConversationIdsSet ⊆
          (loadRows limit following page s').excludeConversationIdsSet :=
        let ⟨_, hadds, _⟩ := adds_loadRows limit following page s'
        hadds.subset
      obtain ⟨moved, -, ⟨hpassed, heq⟩ | ⟨-, ⟨hfull, heq⟩ | heq⟩⟩ :=
        loadRows_cons limit following row page s
      · rw [heq] at hlimit ⊢
        rintro r (_ | ⟨_, hr⟩) hactive
        · rcases hpassed with hdeactivated | hin
          · exact absurd (hdeactivated.symm.trans hactive) (by decide)
          · exact hsubset moved hin
        · exact ih hlimit r hr hactive
      · rw [heq] at hlimit
        exact absurd hlimit (not_lt.mpr hfull)
      · rw [heq] at hlimit ⊢
        rintro r (_ | ⟨_, hr⟩) hactive
        · exact hsubset _ (Finset.mem_insert_self _ _)
        · exact ih hlimit r hr hactive

/-- Where the bound is when the rows of a query were looked at. -/
def boundAfter (following : Bool) (page : List ConversationRow) (upperBound : ℤ) : ℤ :=
  if following then
    (page.getLast?.map fun row => (loadConversationFromDatabase row).date).getD upperBound
  else upperBound

theorem upperBound_loadRows (hlimit : (loadRows limit following page s).array.length < limit) :
    (loadRows limit following page s).upperBound = boundAfter following page s.upperBound := by
  induction page generalizing s with
  | nil => cases following <;> rfl
  | cons row page ih =>
      obtain ⟨moved, ⟨-, -, hbound⟩, hcases⟩ := loadRows_cons limit following row page s
      have hlast : boundAfter following (row :: page) s.upperBound =
          boundAfter following page moved.upperBound := by
        rw [hbound, boundAfter, boundAfter, List.getLast?_cons]
        cases following
        · rfl
        · cases page.getLast? <;> rfl
      obtain ⟨-, heq⟩ | ⟨-, ⟨hfull, heq⟩ | heq⟩ := hcases
      · rw [heq] at hlimit ⊢
        rw [ih hlimit, hlast]
      · rw [heq] at hlimit
        exact absurd hlimit (not_lt.mpr hfull)
      · rw [heq] at hlimit ⊢
        rw [ih hlimit, hlast]
        rfl

/-! ### The queries -/

theorem mem_exactDateRows {upperBound : ℤ} (h : row ∈ exactDateRows rows limit upperBound) :
    row ∈ rows ∧ row.date = upperBound := by
  simpa using List.mem_of_mem_take h

theorem mem_followingDatesRows {upperBound : ℤ}
    (h : row ∈ followingDatesRows rows limit upperBound) :
    row ∈ rows ∧ row.date < upperBound := by
  have h := (List.perm_insertionSort _ _).mem_iff.mp (List.mem_of_mem_take h)
  simpa using h

/-- The last row has the least date of the page. -/
theorem getLast?_followingDatesRows {upperBound : ℤ} {last : ConversationRow}
    (hlast : (followingDatesRows rows limit upperBound).getLast? = some last) :
    ∀ row ∈ followingDatesRows rows limit upperBound, last.date ≤ row.date := by
  have hsorted : (followingDatesRows rows limit upperBound).Pairwise
      fun lhs rhs => rhs.date ≤ lhs.date := by
    have htotal : Std.Total fun lhs rhs : ConversationRow => rhs.date ≤ lhs.date :=
      ⟨fun lhs rhs => le_total _ _⟩
    have htrans : IsTrans ConversationRow fun lhs rhs => rhs.date ≤ lhs.date :=
      ⟨fun _ _ _ h h' => le_trans h' h⟩
    exact (List.pairwise_insertionSort _ _).sublist (List.take_sublist _ _)
  generalize followingDatesRows rows limit upperBound = page at hlast hsorted
  obtain ⟨before, rfl⟩ := List.getLast?_eq_some_iff.mp hlast
  intro row hrow
  rcases List.mem_append.mp hrow with hrow | hrow
  · exact (List.pairwise_append.mp hsorted).2.2 row hrow last (List.mem_singleton_self _)
  · rw [List.mem_singleton.mp hrow]

end Rows

/-! ### The loop ends -/

section Loop

variable {limit fuel : ℕ} {upperBound : ℤ} {rows : List ConversationRow} {row : ConversationRow}
  {s s' : LoadState}

/-- Where the bound is after a round that goes on. -/
def nextBound (rows : List ConversationRow) (limit : ℕ) (upperBound : ℤ) : ℤ :=
  boundAfter true (followingDatesRows rows limit upperBound) upperBound

/-- A round that goes on. -/
structure Continues (rows : List ConversationRow) (limit : ℕ) (s : LoadState) : Prop where
  exact : (loadExact rows limit s).array.length < limit
  following : (loadFollowing rows limit (loadExact rows limit s)).array.length < limit
  loadedAny : (loadFollowing rows limit (loadExact rows limit s)).loadedAny = true

/-- Each round ends the loop or goes on. -/
theorem loadPages_succ (rows : List ConversationRow) (limit fuel : ℕ) (s : LoadState) :
    limit ≤ (loadExact rows limit s).array.length ∧
        loadPages rows limit (fuel + 1) s = some (loadExact rows limit s) ∨
      (loadExact rows limit s).array.length < limit ∧
        ¬ Continues rows limit s ∧
        loadPages rows limit (fuel + 1) s =
          some (loadFollowing rows limit (loadExact rows limit s)) ∨
      Continues rows limit s ∧ loadPages rows limit (fuel + 1) s =
        loadPages rows limit fuel (loadFollowing rows limit (loadExact rows limit s)) := by
  rw [loadPages]
  dsimp only
  split
  · next hfull => exact Or.inl ⟨hfull, rfl⟩
  · next hexact =>
      split
      · next hfull =>
          exact Or.inr (Or.inl ⟨not_le.mp hexact, fun h => absurd h.following (not_lt.mpr hfull),
            rfl⟩)
      · next hfollowing =>
          split
          · next hnone =>
              refine Or.inr (Or.inl ⟨not_le.mp hexact, fun h => ?_, rfl⟩)
              rw [h.loadedAny] at hnone
              exact absurd hnone (by decide)
          · next hany =>
              refine Or.inr (Or.inr ⟨⟨not_le.mp hexact, not_le.mp hfollowing, ?_⟩, rfl⟩)
              simpa using hany

theorem upperBound_loadExact (h : (loadExact rows limit s).array.length < limit) :
    (loadExact rows limit s).upperBound = s.upperBound :=
  upperBound_loadRows h

theorem Continues.upperBound_eq (h : Continues rows limit s) :
    (loadFollowing rows limit (loadExact rows limit s)).upperBound =
      nextBound rows limit s.upperBound := by
  rw [loadFollowing, upperBound_loadRows h.following, upperBound_loadExact h.exact]
  rfl

/-- One round adds rows of its two pages. -/
theorem adds_round (rows : List ConversationRow) (limit : ℕ) (s : LoadState) :
    ∃ exact following : List ConversationRow,
      (Adds s (loadExact rows limit s) (exact.map loadConversationFromDatabase) ∧
        ∀ row ∈ exact,
          row ∈ exactDateRows rows limit s.upperBound ∧ row.isDeactivated = false) ∧
      ((loadExact rows limit s).array.length < limit →
        Adds (loadExact rows limit s) (loadFollowing rows limit (loadExact rows limit s))
          (following.map loadConversationFromDatabase) ∧
        (∀ row ∈ following,
          row ∈ followingDatesRows rows limit s.upperBound ∧ row.isDeactivated = false) ∧
        (loadFollowing rows limit (loadExact rows limit s)).loadedAny = !following.isEmpty) := by
  obtain ⟨exact, hexact, hmem, -⟩ :=
    adds_loadRows limit false (exactDateRows rows limit s.upperBound) s
  obtain ⟨following, hfollowing, hmem', hany⟩ := adds_loadRows limit true
    (followingDatesRows rows limit (loadExact rows limit s).upperBound)
    { loadExact rows limit s with loadedAny := false }
  refine ⟨exact, following, ⟨hexact, hmem⟩, fun hlimit => ?_⟩
  rw [upperBound_loadExact hlimit] at hmem'
  exact ⟨⟨hfollowing.array, hfollowing.ids, hfollowing.nodup, hfollowing.fresh⟩, hmem', hany⟩

/-- The bound is not above the rows of the page. -/
theorem nextBound_le (hdate : ∀ row ∈ rows, (loadConversationFromDatabase row).date ≤ row.date)
    (hrow : row ∈ followingDatesRows rows limit upperBound) :
    nextBound rows limit upperBound ≤ row.date := by
  obtain ⟨last, hlast⟩ :
      ∃ last, (followingDatesRows rows limit upperBound).getLast? = some last :=
    ⟨_, List.getLast?_eq_some_getLast (List.ne_nil_of_mem hrow)⟩
  rw [nextBound, boundAfter, if_pos rfl, hlast]
  exact (hdate last (mem_followingDatesRows (List.mem_of_getLast? hlast)).1).trans
    (getLast?_followingDatesRows hlast row hrow)

/-- A round that goes on had a row below its bound. -/
theorem Continues.exists_row (h : Continues rows limit s) :
    ∃ row, row ∈ followingDatesRows rows limit s.upperBound := by
  obtain ⟨-, following, -, hfollowing⟩ := adds_round rows limit s
  obtain ⟨-, hmem, hany⟩ := hfollowing h.exact
  rw [h.loadedAny] at hany
  obtain ⟨row, hrow⟩ := List.exists_mem_of_ne_nil following (by rintro rfl; simp at hany)
  exact ⟨row, (hmem row hrow).1⟩

/-- **The loop ends**: each round takes a row from those below the bound. -/
theorem loadPages_isSome
    (hdate : ∀ row ∈ rows, (loadConversationFromDatabase row).date ≤ row.date)
    (hfuel : (rows.filter fun row => row.date < s.upperBound).length < fuel) :
    ∃ s', loadPages rows limit fuel s = some s' := by
  induction fuel generalizing s with
  | zero => exact absurd hfuel (Nat.not_lt_zero _)
  | succ fuel ih =>
      obtain ⟨-, heq⟩ | ⟨-, -, heq⟩ | ⟨hcontinues, heq⟩ := loadPages_succ rows limit fuel s
      · exact ⟨_, heq⟩
      · exact ⟨_, heq⟩
      · rw [heq]
        refine ih ?_
        obtain ⟨row, hrow⟩ := hcontinues.exists_row
        obtain ⟨hmem, hbelow⟩ := mem_followingDatesRows hrow
        have hbound := nextBound_le hdate hrow
        have hfewer : (rows.filter fun row =>
            row.date < (loadFollowing rows limit (loadExact rows limit s)).upperBound) =
            (rows.filter fun row => row.date < s.upperBound).filter fun row =>
              row.date < nextBound rows limit s.upperBound := by
          rw [hcontinues.upperBound_eq, List.filter_filter]
          refine List.filter_congr fun row _ => ?_
          simp only [← Bool.decide_and, decide_eq_decide]
          exact ⟨fun h => ⟨h, h.trans (hbound.trans_lt hbelow)⟩, fun h => h.1⟩
        rw [hfewer]
        refine lt_of_lt_of_le ?_ (Nat.lt_succ_iff.mp hfuel)
        refine List.length_filter_lt_length_iff_exists.mpr ⟨row, ?_, ?_⟩
        · exact List.mem_filter.mpr ⟨hmem, decide_eq_true hbelow⟩
        · simpa using hbound

/-- More fuel does not change the result. -/
theorem loadPages_mono {more : ℕ} (hfuel : fuel ≤ more)
    (h : loadPages rows limit fuel s = some s') : loadPages rows limit more s = some s' := by
  induction fuel generalizing s more with
  | zero => cases h
  | succ fuel ih =>
      obtain ⟨more, rfl⟩ : ∃ n, more = n + 1 := ⟨more - 1, by omega⟩
      rw [loadPages] at h ⊢
      dsimp only at h ⊢
      split at h
      · next hfull => rw [if_pos hfull, h]
      · next hexact =>
          rw [if_neg hexact]
          split at h
          · next hfull => rw [if_pos hfull, h]
          · next hfollowing =>
              rw [if_neg hfollowing]
              split at h
              · next hnone => rw [if_pos hnone, h]
              · next hany =>
                  rw [if_neg hany]
                  exact ih (by omega) h

end Loop

/-! ### Channels are added after the loop -/

section Finish

variable {tables : ConversationTables} {count : ℕ} {conversation : TGConversation}

@[simp] theorem ConversationTables.conversationId_renderConversation :
    (tables.renderConversation conversation).conversationId = conversation.conversationId := by
  simp only [ConversationTables.renderConversation, TGConversation.setPinnedDate,
    TGConversation.mergeDraft, TGConversation.conversationId_raiseSortKey]

@[simp] theorem ConversationTables.isChannel_renderConversation :
    (tables.renderConversation conversation).isChannel = conversation.isChannel := by
  simp only [ConversationTables.renderConversation, TGConversation.setPinnedDate,
    TGConversation.mergeDraft, TGConversation.isChannel_raiseSortKey]

/-- A conversation that is loaded has the id it was asked for. -/
theorem ConversationTables.conversationId_of_load {id : ℤ}
    (h : tables.loadConversationWithId id = some conversation) :
    conversation.conversationId = id := by
  rw [ConversationTables.loadConversationWithId, Option.map_eq_some_iff] at h
  obtain ⟨loaded, hloaded, rfl⟩ := h
  rw [conversationId_renderConversation]
  split at hloaded
  · rw [ConversationTables.loadChannelConversation] at hloaded
    split at hloaded
    · next row hrow =>
        split at hloaded
        · next hvalid =>
            obtain rfl := Option.some.inj hloaded
            rw [conversationId_renderConversation]
            have hcid : row.cid = id := by simpa using List.find?_some hrow
            rcases tables.channel_id row (List.mem_of_find?_eq_some hrow) with hid | hid
            · exact hid.trans hcid
            · exact absurd hid hvalid
        · cases hloaded
    · cases hloaded
  · rw [Option.map_eq_some_iff] at hloaded
    obtain ⟨row, hrow, rfl⟩ := hloaded
    have hcid : row.cid = id := by simpa using List.find?_some hrow
    exact hcid

/-- The pinned conversations are distinct, and have the ids of pinned peers. -/
theorem ConversationTables.ids_getPinnedConversations :
    (tables.getPinnedConversations.map TGConversation.conversationId).Sublist
      ((tables.pinnedConversationDates.insertionSort fun lhs rhs => rhs.2 ≤ lhs.2).map
        Prod.fst) := by
  rw [ConversationTables.getPinnedConversations]
  generalize (tables.pinnedConversationDates.insertionSort fun lhs rhs => rhs.2 ≤ lhs.2).map
    Prod.fst = ids
  induction ids with
  | nil => exact List.Sublist.slnil
  | cons id ids ih =>
      rw [List.filterMap_cons]
      split
      · exact ih.cons id
      · next conversation hload =>
          rw [List.map_cons, conversationId_of_load hload]
          exact ih.cons_cons id

theorem ConversationTables.nodup_getPinnedConversations :
    (tables.getPinnedConversations.map TGConversation.conversationId).Nodup := by
  refine tables.ids_getPinnedConversations.nodup ?_
  exact ((List.perm_insertionSort _ _).map Prod.fst).nodup_iff.mpr tables.pinned_nodup

/-- What comes from the table of channels. -/
theorem ConversationTables.mem_loadChannels {lowerBoundKey upperBoundKey : TGConversationSortKey}
    (h : conversation ∈ tables.loadChannels lowerBoundKey upperBoundKey count) :
    conversation.isChannel = true ∧ TGPeerIdIsChannel conversation.conversationId = true := by
  obtain ⟨hmem, hvalid⟩ := List.mem_filter.mp h
  obtain ⟨row, hrow, rfl⟩ := List.mem_map.mp hmem
  have hrow := (List.mem_filter.mp
    ((List.perm_insertionSort _ _).mem_iff.mp (List.mem_of_mem_take hrow))).1
  refine ⟨rfl, ?_⟩
  rcases tables.channel_id row hrow with hid | hid
  · exact (congrArg TGPeerIdIsChannel hid).trans (tables.is_channel row hrow)
  · exact absurd (of_decide_eq_true hvalid) (not_not.mpr hid)

/-- What is added after the loop, channels only. -/
def Channels (more : List TGConversation) : Prop :=
  ∀ channel ∈ more, channel.isChannel = true ∧
    TGPeerIdIsChannel channel.conversationId = true

theorem adds_addChannel (channels : List TGConversation) (hchannels : Channels channels)
    (s : LoadState) :
    ∃ more, Adds s (channels.foldl LoadState.addChannel s) more ∧ Channels more := by
  induction channels generalizing s with
  | nil => exact ⟨[], .refl, fun _ h => absurd h List.not_mem_nil⟩
  | cons channel channels ih =>
      obtain ⟨more, hadds, hmore⟩ :=
        ih (fun c hc => hchannels c (.tail _ hc)) (s.addChannel channel)
      rw [List.foldl_cons]
      by_cases hin : channel.conversationId ∈ s.excludeConversationIdsSet
      · rw [LoadState.addChannel, if_pos hin] at hadds ⊢
        exact ⟨more, hadds, hmore⟩
      · rw [LoadState.addChannel, if_neg hin] at hadds ⊢
        refine ⟨_, (Adds.add hin).trans hadds, ?_⟩
        rintro c (_ | ⟨_, hc⟩)
        · exact hchannels channel (.head _)
        · exact hmore c hc

theorem ConversationTables.adds_addChannels (tables : ConversationTables) (date : ℤ) (limit : ℕ)
    (s : LoadState) : ∃ more, Adds s (tables.addChannels date limit s) more ∧ Channels more := by
  obtain ⟨more, hadds, hmore⟩ := adds_addChannel _ (fun _ => tables.mem_loadChannels) s
  refine ⟨more, ⟨?_, hadds.ids, hadds.nodup, hadds.fresh⟩, hmore⟩
  exact (List.perm_insertionSort _ _).trans hadds.array

theorem ConversationTables.adds_addMoreChannels (tables : ConversationTables) (limit : ℕ)
    (s : LoadState) : ∃ more, Adds s (tables.addMoreChannels limit s) more ∧ Channels more := by
  rw [ConversationTables.addMoreChannels]
  split
  · split
    · exact adds_addChannel _ (fun _ => tables.mem_loadChannels) s
    · exact ⟨[], .refl, fun _ h => absurd h List.not_mem_nil⟩
  · exact ⟨[], .refl, fun _ h => absurd h List.not_mem_nil⟩

/-- **The result** is what the loop added, with channels, rendered. -/
theorem ConversationTables.finishLoading_perm (tables : ConversationTables) (date : ℤ) (limit : ℕ)
    (s : LoadState) : ∃ s' more, Adds s s' more ∧ Channels more ∧
      (tables.finishLoading date limit s).Perm (s'.array.map tables.renderConversation) := by
  obtain ⟨more, hadds, hmore⟩ := tables.adds_addChannels date limit s
  obtain ⟨more', hadds', hmore'⟩ := tables.adds_addMoreChannels limit
    (tables.addChannels date limit s)
  refine ⟨_, _, hadds.trans hadds', ?_, List.perm_insertionSort _ _⟩
  intro channel hchannel
  rcases List.mem_append.mp hchannel with hchannel | hchannel
  · exact hmore channel hchannel
  · exact hmore' channel hchannel

end Finish

end Telegraph.Database
