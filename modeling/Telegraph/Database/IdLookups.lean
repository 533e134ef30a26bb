import Telegraph.Lib.Dictionary

/-!
# Lookups of Many Ids

`TGDatabase` maps temporary ids and random ids to message ids, and message ids to random ids, for
lists of ids at once. The four functions cut the list into blocks and run one query for each of
them, but the loop that collects a block ends at index 128 of the list and not of the block: the
first block has the first 128 ids, and every later one is empty.

## Main results

* `mem_blocks`: the blocks have the first 128 ids, and no others.
* `lookup_collect`: what a query over blocks finds.
* `idLookups_complete`: **the lookups are those of one query over the whole list exactly if every
  listed id that has a row is among the first 128.**
* `idLookups_incomplete`: the 129th id is not looked up.
-/

namespace Telegraph.Database

/-! ### Blocks and queries -/

/-- The block that starts at index `i`: the ids from there on, with indexes below 128. -/
def idBlock (ids : List ℤ) (i : ℕ) : List ℤ := (ids.take 128).drop i

/-- The blocks that start at the indexes 0, 128, 256 and so on. -/
def idBlocks (ids : List ℤ) : List (List ℤ) :=
  (List.range ((ids.length + 127) / 128)).map fun block => idBlock ids (block * 128)

/-- The rows of a table whose key is in the list. -/
def selectIn {ρ : Type} (keyOf : ρ → ℤ) (rows : List ρ) (ids : List ℤ) : List ρ :=
  rows.filter fun row => keyOf row ∈ ids

/-- Rows are inserted into a `std::map`, which keeps the value that a key has already. -/
def insertRows {ρ : Type} (keyOf valueOf : ρ → ℤ) (mapping : Dictionary ℤ ℤ) (rows : List ρ) :
    Dictionary ℤ ℤ :=
  rows.foldl (fun mapping row =>
    if keyOf row ∈ mapping then mapping else mapping.insert (keyOf row) (valueOf row)) mapping

/-- The mapping collected from one query for each block. -/
def collect {ρ : Type} (keyOf valueOf : ρ → ℤ) (rows : List ρ) (blocks : List (List ℤ))
    (mapping : Dictionary ℤ ℤ) : Dictionary ℤ ℤ :=
  blocks.foldl (fun mapping block =>
    insertRows keyOf valueOf mapping (selectIn keyOf rows block)) mapping

/-- The rows of the listed ids are deleted. -/
def deleteIn (table : Dictionary ℤ ℤ) (ids : List ℤ) : Dictionary ℤ ℤ :=
  ids.foldl (fun table id => table.erase id) table

/-! ### The functions -/

/-- The tables: message ids by temporary id and by random id, their primary keys. -/
structure IdTables where
  tempMessages : Dictionary ℤ ℤ
  randomIds : Dictionary ℤ ℤ

namespace IdTables

/-- `messageIdsForTempIds:mapping:`. -/
def messageIdsForTempIds (tables : IdTables) (tempIds : List ℤ) (mapping : Dictionary ℤ ℤ) :
    Dictionary ℤ ℤ :=
  collect Sigma.fst Sigma.snd tables.tempMessages.entries (idBlocks tempIds) mapping

/-- `messageIdsForRandomIds:mapping:`. -/
def messageIdsForRandomIds (tables : IdTables) (randomIds : List ℤ) (mapping : Dictionary ℤ ℤ) :
    Dictionary ℤ ℤ :=
  collect Sigma.fst Sigma.snd tables.randomIds.entries (idBlocks randomIds) mapping

/-- `randomIdsForMessageIds:mapping:`. -/
def randomIdsForMessageIds (tables : IdTables) (messageIds : List ℤ) (mapping : Dictionary ℤ ℤ) :
    Dictionary ℤ ℤ :=
  collect Sigma.snd Sigma.fst tables.randomIds.entries (idBlocks messageIds) mapping

/-- `removeTempIds:`. -/
def removeTempIds (tables : IdTables) (tempIds : List ℤ) : IdTables :=
  { tables with tempMessages := (idBlocks tempIds).foldl deleteIn tables.tempMessages }

/-- The message ids that a `deleteMessages` action of the peer adds to those to delete. -/
def deleteMessageIds (tables : IdTables) (randomIds : List ℤ) : List ℤ :=
  (tables.messageIdsForRandomIds randomIds ∅).entries.map Sigma.snd

end IdTables

/-! ### What the queries find -/

section Queries

variable {ρ : Type} {keyOf valueOf : ρ → ℤ} {rows : List ρ} {ids : List ℤ}
  {blocks : List (List ℤ)} {mapping table : Dictionary ℤ ℤ} {id : ℤ}

/-- The blocks have the first 128 ids, and no others. -/
theorem mem_blocks : (∃ block ∈ idBlocks ids, id ∈ block) ↔ id ∈ ids.take 128 := by
  simp only [idBlocks, List.mem_map, List.mem_range]
  constructor
  · rintro ⟨_, ⟨block, -, rfl⟩, hid⟩
    exact List.mem_of_mem_drop hid
  · intro hid
    have hpos : 0 < ids.length := by
      have := List.length_pos_of_mem hid
      rw [List.length_take] at this
      omega
    exact ⟨_, ⟨0, by omega, rfl⟩, by rwa [Nat.zero_mul, idBlock, List.drop_zero]⟩

/-- A value is the one before, or that of the first row with the key. -/
theorem lookup_insertRows :
    (insertRows keyOf valueOf mapping rows).lookup id =
      (mapping.lookup id).or ((rows.find? fun row => keyOf row = id).map valueOf) := by
  induction rows generalizing mapping with
  | nil => rw [insertRows, List.foldl_nil, List.find?_nil, Option.map_none, Option.or_none]
  | cons row rows ih =>
      rw [insertRows, List.foldl_cons, ← insertRows, ih]
      by_cases hrow : keyOf row = id
      · have hfind : (row :: rows).find? (fun row => keyOf row = id) = some row :=
          List.find?_cons_of_pos (by simpa using hrow)
        rw [hfind, Option.map_some]
        split
        · next hmem =>
            obtain ⟨value, hvalue⟩ := Option.isSome_iff_exists.mp (AList.lookup_isSome.mpr hmem)
            rw [← hrow, hvalue, Option.some_or, Option.some_or]
        · next hmem =>
            rw [← hrow, AList.lookup_insert, AList.lookup_eq_none.mpr hmem, Option.some_or,
              Option.none_or]
      · rw [List.find?_cons_of_neg (by simpa using hrow)]
        split
        · rfl
        · rw [AList.lookup_insert_ne (Ne.symm hrow)]

/-- The first selected row with a key is the first row with it, if the key is listed. -/
theorem find_selectIn :
    (selectIn keyOf rows ids).find? (fun row => keyOf row = id) =
      if id ∈ ids then rows.find? fun row => keyOf row = id else none := by
  rw [selectIn, List.find?_filter]
  split
  · next hid =>
      congr 1
      funext row
      by_cases hrow : keyOf row = id
      · simp [hrow, hid]
      · simp [hrow]
  · next hid =>
      refine List.find?_eq_none.mpr fun row _ => ?_
      rintro hrow
      obtain ⟨hlisted, hkey⟩ := of_decide_eq_true hrow
      rw [of_decide_eq_true hkey] at hlisted
      exact hid (of_decide_eq_true hlisted)

/-- **What a query over blocks finds**: the first row of every id that is in one of them. -/
theorem lookup_collect :
    (collect keyOf valueOf rows blocks mapping).lookup id =
      (mapping.lookup id).or (if ∃ block ∈ blocks, id ∈ block then
        (rows.find? fun row => keyOf row = id).map valueOf else none) := by
  induction blocks generalizing mapping with
  | nil => simp [collect]
  | cons block blocks ih =>
      rw [collect, List.foldl_cons, ← collect, ih, lookup_insertRows, find_selectIn,
        Option.or_assoc]
      by_cases hid : id ∈ block
      · simp only [hid, if_true, List.mem_cons, exists_eq_or_imp, true_or]
        cases rows.find? fun row => keyOf row = id <;> simp
      · simp only [hid, if_false, List.mem_cons, exists_eq_or_imp, false_or, Option.map_none,
          Option.none_or]

/-- A query over the whole list finds the first row of every listed id. -/
theorem lookup_selectIn :
    (insertRows keyOf valueOf mapping (selectIn keyOf rows ids)).lookup id =
      (mapping.lookup id).or (if id ∈ ids then
        (rows.find? fun row => keyOf row = id).map valueOf else none) := by
  rw [lookup_insertRows, find_selectIn]
  split <;> rfl

/-- **The blocks find what one query finds exactly if every listed id that has a row, and no value
yet, is among the first 128.** -/
theorem lookup_collect_eq_iff :
    (∀ id, (collect keyOf valueOf rows (idBlocks ids) mapping).lookup id =
        (insertRows keyOf valueOf mapping (selectIn keyOf rows ids)).lookup id) ↔
      ∀ id ∈ ids, (∃ row ∈ rows, keyOf row = id) → id ∈ mapping ∨ id ∈ ids.take 128 := by
  simp only [lookup_collect, lookup_selectIn, mem_blocks]
  constructor
  · intro h id hid hrow
    by_contra hneither
    obtain ⟨hmapping, htake⟩ := not_or.mp hneither
    have heq := h id
    rw [if_neg htake, if_pos hid, AList.lookup_eq_none.mpr hmapping, Option.none_or,
      Option.none_or, eq_comm, Option.map_eq_none_iff, List.find?_eq_none] at heq
    obtain ⟨row, hmem, hkey⟩ := hrow
    exact heq row hmem (decide_eq_true hkey)
  · intro h id
    by_cases htake : id ∈ ids.take 128
    · rw [if_pos htake, if_pos (List.mem_of_mem_take htake)]
    · rw [if_neg htake]
      split
      · next hid =>
          by_cases hrow : ∃ row ∈ rows, keyOf row = id
          · have hmem := (h id hid hrow).resolve_right htake
            obtain ⟨value, hvalue⟩ := Option.isSome_iff_exists.mp (AList.lookup_isSome.mpr hmem)
            rw [hvalue, Option.some_or, Option.some_or]
          · have hnone : rows.find? (fun row => keyOf row = id) = none := by
              refine List.find?_eq_none.mpr fun row hmem hkey => hrow ⟨row, hmem, ?_⟩
              exact of_decide_eq_true hkey
            rw [hnone, Option.map_none]
      · rfl

theorem lookup_deleteIn :
    (deleteIn table ids).lookup id = if id ∈ ids then none else table.lookup id := by
  induction ids generalizing table with
  | nil => simp [deleteIn]
  | cons other ids ih =>
      rw [deleteIn, List.foldl_cons, ← deleteIn, ih, Dictionary.lookup_erase_ite]
      by_cases hid : id ∈ ids
      · simp [hid]
      · by_cases hother : id = other
        · simp [hother]
        · simp [hid, hother]

theorem lookup_deleteBlocks :
    (blocks.foldl deleteIn table).lookup id =
      if ∃ block ∈ blocks, id ∈ block then none else table.lookup id := by
  induction blocks generalizing table with
  | nil => simp
  | cons block blocks ih =>
      rw [List.foldl_cons, ih, lookup_deleteIn]
      by_cases hid : id ∈ block
      · simp [hid]
      · simp [hid]

/-- The blocks delete the rows of the listed ids exactly if every listed id that has a row is among
the first 128. -/
theorem lookup_deleteBlocks_eq_iff :
    (∀ id, ((idBlocks ids).foldl deleteIn table).lookup id = (deleteIn table ids).lookup id) ↔
      ∀ id ∈ ids, id ∈ table → id ∈ ids.take 128 := by
  simp only [lookup_deleteBlocks, lookup_deleteIn, mem_blocks]
  constructor
  · intro h id hid hrow
    by_contra htake
    have heq := h id
    rw [if_neg htake, if_pos hid] at heq
    exact AList.lookup_eq_none.mp heq hrow
  · intro h id
    by_cases htake : id ∈ ids.take 128
    · rw [if_pos htake, if_pos (List.mem_of_mem_take htake)]
    · rw [if_neg htake]
      split
      · next hid => exact AList.lookup_eq_none.mpr fun hrow => htake (h id hid hrow)
      · rfl

end Queries

/-! ### The lookups -/

namespace IdTables

variable (tables : IdTables) (ids : List ℤ) (mapping : Dictionary ℤ ℤ)

/-- The first row with a primary key is that of the key. -/
theorem find_entries (table : Dictionary ℤ ℤ) (id : ℤ) :
    (table.entries.find? fun row => row.1 = id).map Sigma.snd = table.lookup id := by
  have hfind := List.map_dlookup_eq_find id table.entries
  simp only [eq_comm (a := id)] at hfind
  rw [← hfind, Option.map_map]
  exact Option.map_id'

theorem exists_entry_iff {table : Dictionary ℤ ℤ} {id : ℤ} :
    (∃ row ∈ table.entries, row.1 = id) ↔ id ∈ table := by
  rw [AList.mem_keys, AList.keys, List.keys, List.mem_map]

/-- A message id is to be deleted if it is that of one of the first 128 random ids. -/
theorem mem_deleteMessageIds {mid : ℤ} :
    mid ∈ tables.deleteMessageIds ids ↔
      ∃ randomId ∈ ids.take 128, tables.randomIds.lookup randomId = some mid := by
  have hlookup : ∀ randomId, (tables.messageIdsForRandomIds ids ∅).lookup randomId =
      if randomId ∈ ids.take 128 then tables.randomIds.lookup randomId else none := by
    intro randomId
    rw [messageIdsForRandomIds, lookup_collect, AList.lookup_empty, Option.none_or, find_entries]
    simp only [mem_blocks]
  rw [deleteMessageIds, List.mem_map]
  constructor
  · rintro ⟨⟨randomId, _⟩, hentry, rfl⟩
    have hmem := AList.mem_lookup_iff.mpr hentry
    rw [hlookup, Option.mem_def, Option.ite_none_right_eq_some] at hmem
    exact ⟨randomId, hmem⟩
  · rintro ⟨randomId, hmem⟩
    refine ⟨⟨randomId, mid⟩, AList.mem_lookup_iff.mp ?_, rfl⟩
    rwa [hlookup, Option.mem_def, Option.ite_none_right_eq_some]

/-- **The lookups are those of one query over the whole list exactly if every listed id that has a
row is among the first 128**; so are the rows that `removeTempIds:` deletes, and a `deleteMessages`
action resolves all its random ids exactly if the first 128 have all the message ids. -/
theorem idLookups_complete :
    ((∀ id, (tables.messageIdsForTempIds ids mapping).lookup id =
        (insertRows Sigma.fst Sigma.snd mapping
          (selectIn Sigma.fst tables.tempMessages.entries ids)).lookup id) ↔
      ∀ id ∈ ids, id ∈ tables.tempMessages → id ∈ mapping ∨ id ∈ ids.take 128) ∧
    ((∀ id, (tables.messageIdsForRandomIds ids mapping).lookup id =
        (insertRows Sigma.fst Sigma.snd mapping
          (selectIn Sigma.fst tables.randomIds.entries ids)).lookup id) ↔
      ∀ id ∈ ids, id ∈ tables.randomIds → id ∈ mapping ∨ id ∈ ids.take 128) ∧
    ((∀ id, (tables.randomIdsForMessageIds ids mapping).lookup id =
        (insertRows Sigma.snd Sigma.fst mapping
          (selectIn Sigma.snd tables.randomIds.entries ids)).lookup id) ↔
      ∀ id ∈ ids, (∃ row ∈ tables.randomIds.entries, row.2 = id) →
        id ∈ mapping ∨ id ∈ ids.take 128) ∧
    ((∀ id, (tables.removeTempIds ids).tempMessages.lookup id =
        (deleteIn tables.tempMessages ids).lookup id) ↔
      ∀ id ∈ ids, id ∈ tables.tempMessages → id ∈ ids.take 128) ∧
    ((∀ randomId ∈ ids, ∀ mid, tables.randomIds.lookup randomId = some mid →
        mid ∈ tables.deleteMessageIds ids) ↔
      ∀ randomId ∈ ids, ∀ mid, tables.randomIds.lookup randomId = some mid →
        ∃ other ∈ ids.take 128, tables.randomIds.lookup other = some mid) := by
  refine ⟨?_, ?_, lookup_collect_eq_iff, lookup_deleteBlocks_eq_iff, ?_⟩
  · have hrow : ∀ id, id ∈ tables.tempMessages ↔
        ∃ row ∈ tables.tempMessages.entries, row.1 = id := fun _ => exists_entry_iff.symm
    simp only [hrow]
    exact lookup_collect_eq_iff
  · have hrow : ∀ id, id ∈ tables.randomIds ↔
        ∃ row ∈ tables.randomIds.entries, row.1 = id := fun _ => exists_entry_iff.symm
    simp only [hrow]
    exact lookup_collect_eq_iff
  · simp only [mem_deleteMessageIds]

/-- The 129th id has a row, and is not looked up. -/
theorem idLookups_incomplete :
    ¬ ∀ id, ((⟨∅, AList.singleton 128 5⟩ : IdTables).messageIdsForRandomIds
        ((List.range 129).map Int.ofNat) ∅).lookup id =
      (insertRows Sigma.fst Sigma.snd ∅
        (selectIn Sigma.fst (AList.singleton 128 5 : Dictionary ℤ ℤ).entries
          ((List.range 129).map Int.ofNat))).lookup id := by
  intro h
  exact absurd (h 128) (by decide +kernel)

end IdTables

end Telegraph.Database
