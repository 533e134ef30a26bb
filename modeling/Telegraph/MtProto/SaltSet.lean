import Mathlib.Data.BitVec
import Mathlib.Data.List.Basic

/-!
# Salt Sets

`MTDatacenterAuthInfo` keeps the salts of a datacenter, each with the message ids it is valid for.
`authSaltForMessageId:` goes through them to find the one that stays valid longest, but it never
notes the best count it has seen, so the salt that comes last wins. `mergeSaltSet:forTimestamp:`
drops what has expired and takes in the salts whose first valid id is new.

The difference of two `int64_t` that is no `int64_t` is undefined. The timestamp enters as the
message id it stands for.

## Main results

* `authSaltForMessageId_eq`: the salt that comes last among the valid ones is taken.
* `mergeSaltSet_merges`: **what merging keeps and adds**.
* `saltSet_iff`: the longest valid salt is taken exactly when it has the value of the last valid
  one.
-/

namespace Telegraph.MtProto

/-! ### Salts -/

/-- `MTDatacenterSaltInfo`. -/
structure DatacenterSaltInfo where
  salt : BitVec 64
  firstValidMessageId : BitVec 64
  lastValidMessageId : BitVec 64
deriving DecidableEq

/-- The difference of two `int64_t`; overflow is undefined. -/
def int64Sub (a b : BitVec 64) : Option (BitVec 64) :=
  if a.ssubOverflow b then none else some (a - b)

/-- `validMessageCountAfterId:`. -/
def DatacenterSaltInfo.validMessageCountAfterId (messageId : BitVec 64)
    (saltInfo : DatacenterSaltInfo) : Option (BitVec 64) :=
  if messageId.slt saltInfo.firstValidMessageId then some 0
  else (int64Sub saltInfo.lastValidMessageId messageId).map fun count =>
    if (0 : BitVec 64).slt count then count else 0

/-- `isValidFutureSaltForMessageId:`. -/
def DatacenterSaltInfo.isValidFutureSaltForMessageId (messageId : BitVec 64)
    (saltInfo : DatacenterSaltInfo) : Bool :=
  messageId.slt saltInfo.lastValidMessageId

/-- `MTDatacenterAuthInfo`; `α` is the type of the attributes. -/
structure DatacenterAuthInfo (α : Type) where
  authKey : List UInt8
  authKeyId : BitVec 64
  saltSet : List DatacenterSaltInfo
  authKeyAttributes : α

variable {α : Type}

/-- One round of `authSaltForMessageId:`, on `bestSalt` and `bestValidMessageCount`. The count is
not updated. -/
def considerSalt (messageId : BitVec 64) (best : BitVec 64 × BitVec 64)
    (saltInfo : DatacenterSaltInfo) : Option (BitVec 64 × BitVec 64) := do
  let (bestSalt, bestValidMessageCount) := best
  let currentValidMessageCount ← saltInfo.validMessageCountAfterId messageId
  if currentValidMessageCount ≠ 0 ∧ bestValidMessageCount.slt currentValidMessageCount then
    pure (saltInfo.salt, bestValidMessageCount)
  else pure (bestSalt, bestValidMessageCount)

/-- `authSaltForMessageId:`. -/
def DatacenterAuthInfo.authSaltForMessageId (messageId : BitVec 64)
    (info : DatacenterAuthInfo α) : Option (BitVec 64) :=
  (info.saltSet.foldlM (considerSalt messageId) (0, 0)).map Prod.fst

/-- One round of the second loop of `mergeSaltSet:forTimestamp:`. -/
def addSalt (referenceMessageId : BitVec 64) (mergedSaltSet : List DatacenterSaltInfo)
    (saltInfo : DatacenterSaltInfo) : List DatacenterSaltInfo :=
  let alreadyExists := mergedSaltSet.any fun existingSaltInfo =>
    existingSaltInfo.firstValidMessageId = saltInfo.firstValidMessageId
  if alreadyExists then mergedSaltSet
  else if saltInfo.isValidFutureSaltForMessageId referenceMessageId then
    mergedSaltSet ++ [saltInfo]
  else mergedSaltSet

/-- `mergeSaltSet:forTimestamp:`; the timestamp is given by its `referenceMessageId`. -/
def DatacenterAuthInfo.mergeSaltSet (updatedSaltSet : List DatacenterSaltInfo)
    (referenceMessageId : BitVec 64) (info : DatacenterAuthInfo α) : DatacenterAuthInfo α :=
  { info with
    saltSet := updatedSaltSet.foldl (addSalt referenceMessageId)
      (info.saltSet.filter fun saltInfo =>
        saltInfo.isValidFutureSaltForMessageId referenceMessageId) }

/-! ### What the two are for -/

/-- The salt is valid for the message id. -/
def DatacenterSaltInfo.IsValid (messageId : BitVec 64) (saltInfo : DatacenterSaltInfo) : Prop :=
  saltInfo.firstValidMessageId.toInt ≤ messageId.toInt ∧
    messageId.toInt < saltInfo.lastValidMessageId.toInt

instance (messageId : BitVec 64) (saltInfo : DatacenterSaltInfo) :
    Decidable (saltInfo.IsValid messageId) :=
  inferInstanceAs (Decidable (_ ∧ _))

/-- The salt is valid, and of the valid salts of the set none stays valid longer. -/
structure DatacenterSaltInfo.IsLongest (saltSet : List DatacenterSaltInfo)
    (messageId : BitVec 64) (saltInfo : DatacenterSaltInfo) : Prop where
  mem : saltInfo ∈ saltSet
  valid : saltInfo.IsValid messageId
  longest : ∀ other ∈ saltSet, other.IsValid messageId →
    other.lastValidMessageId.toInt - messageId.toInt ≤
      saltInfo.lastValidMessageId.toInt - messageId.toInt

/-- There is a result; it is 0 exactly if no salt is valid, and otherwise the value of a salt that
stays valid longest. -/
def SelectsLongest (saltSet : List DatacenterSaltInfo) (messageId : BitVec 64)
    (result : Option (BitVec 64)) : Prop :=
  ∃ salt, result = some salt ∧
    (salt = 0 ↔ ∀ saltInfo ∈ saltSet, ¬saltInfo.IsValid messageId) ∧
    ((∃ saltInfo ∈ saltSet, saltInfo.IsValid messageId) →
      ∃ saltInfo : DatacenterSaltInfo, saltInfo.IsLongest saltSet messageId ∧
        saltInfo.salt = salt)

/-- No two salts have the same first valid id. -/
def DistinctSalts (saltSet : List DatacenterSaltInfo) : Prop :=
  saltSet.Pairwise fun a b => a.firstValidMessageId ≠ b.firstValidMessageId

/-- The merged set: first valid ids are distinct; no salt has expired; every unexpired salt is
kept; and every unexpired update is added whose first valid id none of these has and none of the
unexpired updates before it. -/
structure Merges (saltSet updatedSaltSet : List DatacenterSaltInfo)
    (referenceMessageId : BitVec 64) (merged : List DatacenterSaltInfo) : Prop where
  distinct : DistinctSalts merged
  subset : ∀ saltInfo ∈ merged, saltInfo ∈ saltSet ∨ saltInfo ∈ updatedSaltSet
  unexpired : ∀ saltInfo ∈ merged, referenceMessageId.toInt < saltInfo.lastValidMessageId.toInt
  keeps : ∀ saltInfo ∈ saltSet,
    referenceMessageId.toInt < saltInfo.lastValidMessageId.toInt → saltInfo ∈ merged
  adds : ∀ before saltInfo after, updatedSaltSet = before ++ saltInfo :: after →
    referenceMessageId.toInt < saltInfo.lastValidMessageId.toInt →
    (∀ other ∈ saltSet ++ before,
      referenceMessageId.toInt < other.lastValidMessageId.toInt →
        other.firstValidMessageId ≠ saltInfo.firstValidMessageId) → saltInfo ∈ merged

/-! ### Selecting -/

section Select

variable {saltSet : List DatacenterSaltInfo} {messageId : BitVec 64}

/-- No difference of ids that is taken overflows. -/
def NoOverflow (saltSet : List DatacenterSaltInfo) (messageId : BitVec 64) : Prop :=
  ∀ saltInfo ∈ saltSet, saltInfo.firstValidMessageId.toInt ≤ messageId.toInt →
    saltInfo.lastValidMessageId.ssubOverflow messageId = false

/-- The count is positive exactly for a valid salt. -/
theorem validMessageCountAfterId_eq {saltInfo : DatacenterSaltInfo}
    (h : saltInfo.firstValidMessageId.toInt ≤ messageId.toInt →
      saltInfo.lastValidMessageId.ssubOverflow messageId = false) :
    ∃ count, saltInfo.validMessageCountAfterId messageId = some count ∧
      ((0 : BitVec 64).slt count = true ↔ saltInfo.IsValid messageId) := by
  rw [DatacenterSaltInfo.validMessageCountAfterId]
  split
  case isTrue hfirst =>
    rw [BitVec.slt_iff_toInt_lt] at hfirst
    refine ⟨0, rfl, iff_of_false (by decide) fun hvalid => ?_⟩
    exact absurd hvalid.1 (by omega)
  case isFalse hfirst =>
    rw [BitVec.slt_iff_toInt_lt] at hfirst
    have hdefined := h (by omega)
    rw [int64Sub, hdefined, if_neg Bool.false_ne_true, Option.map_some]
    refine ⟨_, rfl, ?_⟩
    have hsub := BitVec.toInt_sub_of_not_ssubOverflow (ne_true_of_eq_false hdefined)
    have hpos : (0 : BitVec 64).slt (saltInfo.lastValidMessageId - messageId) = true ↔
        messageId.toInt < saltInfo.lastValidMessageId.toInt := by
      have hzero : (0 : BitVec 64).toInt = 0 := rfl
      rw [BitVec.slt_iff_toInt_lt, hsub, hzero]
      omega
    split
    case isTrue hcount =>
      exact iff_of_true hcount ⟨by omega, hpos.mp hcount⟩
    case isFalse hcount =>
      exact iff_of_false (by decide) fun hvalid => hcount (hpos.mpr hvalid.2)

/-- A round without overflow takes the salt if it is valid. -/
theorem considerSalt_eq {saltInfo : DatacenterSaltInfo}
    (h : saltInfo.firstValidMessageId.toInt ≤ messageId.toInt →
      saltInfo.lastValidMessageId.ssubOverflow messageId = false) (bestSalt : BitVec 64) :
    considerSalt messageId (bestSalt, 0) saltInfo =
      some (if saltInfo.IsValid messageId then saltInfo.salt else bestSalt, 0) := by
  obtain ⟨count, hcount, hvalid⟩ := validMessageCountAfterId_eq h
  have hne : (0 : BitVec 64).slt count = true → count ≠ 0 := by
    rintro hpos rfl
    exact absurd hpos (by decide)
  rw [considerSalt, hcount]
  simp only [Option.bind_eq_bind, Option.bind_some]
  split
  case isTrue hpos => rw [if_pos (hvalid.mp hpos.2)]; rfl
  case isFalse hpos =>
    rw [if_neg fun hv => hpos ⟨hne (hvalid.mpr hv), hvalid.mpr hv⟩]
    rfl

/-- A difference that overflows has no result. -/
theorem considerSalt_none {saltInfo : DatacenterSaltInfo}
    (hfirst : saltInfo.firstValidMessageId.toInt ≤ messageId.toInt)
    (h : saltInfo.lastValidMessageId.ssubOverflow messageId = true)
    (best : BitVec 64 × BitVec 64) : considerSalt messageId best saltInfo = none := by
  have hnot : ¬messageId.slt saltInfo.firstValidMessageId = true := by
    rw [BitVec.slt_iff_toInt_lt]
    omega
  rw [considerSalt, DatacenterSaltInfo.validMessageCountAfterId, if_neg hnot, int64Sub, if_pos h]
  rfl

/-- The value of the valid salt that comes last. -/
def lastValidSalt (messageId : BitVec 64) (saltSet : List DatacenterSaltInfo) : BitVec 64 :=
  ((saltSet.reverse.find? fun saltInfo => saltInfo.IsValid messageId).map
    DatacenterSaltInfo.salt).getD 0

/-- What the rounds leave, from any salt. -/
theorem foldlM_considerSalt (h : NoOverflow saltSet messageId) (bestSalt : BitVec 64) :
    saltSet.foldlM (considerSalt messageId) (bestSalt, 0) =
      some (((saltSet.reverse.find? fun saltInfo => saltInfo.IsValid messageId).map
        DatacenterSaltInfo.salt).getD bestSalt, 0) := by
  induction saltSet generalizing bestSalt with
  | nil => rfl
  | cons saltInfo saltSet ih =>
      have hrest : NoOverflow saltSet messageId := fun s hs => h s (List.mem_cons_of_mem _ hs)
      rw [List.foldlM_cons, considerSalt_eq (h saltInfo List.mem_cons_self), Option.bind_eq_bind,
        Option.bind_some, ih hrest, List.reverse_cons, List.find?_append]
      cases hfound : saltSet.reverse.find? fun saltInfo => decide (saltInfo.IsValid messageId) with
      | some other => rfl
      | none =>
          by_cases hvalid : saltInfo.IsValid messageId
          · simp [hvalid]
          · simp [hvalid]

/-- **The salt that comes last among the valid ones is taken.** -/
theorem authSaltForMessageId_eq (info : DatacenterAuthInfo α)
    (h : NoOverflow info.saltSet messageId) :
    info.authSaltForMessageId messageId = some (lastValidSalt messageId info.saltSet) := by
  rw [DatacenterAuthInfo.authSaltForMessageId, foldlM_considerSalt h]
  rfl

/-- With an overflow there is no result. -/
theorem authSaltForMessageId_none (info : DatacenterAuthInfo α)
    (h : ¬NoOverflow info.saltSet messageId) : info.authSaltForMessageId messageId = none := by
  have hnone : ∀ (saltSet : List DatacenterSaltInfo) (best : BitVec 64 × BitVec 64),
      ¬NoOverflow saltSet messageId → saltSet.foldlM (considerSalt messageId) best = none := by
    intro saltSet
    induction saltSet with
    | nil => exact fun _ hover => absurd (by simp [NoOverflow]) hover
    | cons saltInfo saltSet ih =>
        intro best hover
        rw [List.foldlM_cons]
        cases hround : considerSalt messageId best saltInfo with
        | none => rfl
        | some best' =>
            refine ih best' fun hrest => hover fun other hother hfirst => ?_
            rcases List.mem_cons.mp hother with rfl | hother
            · by_contra hbad
              rw [considerSalt_none hfirst (Bool.eq_true_of_not_eq_false hbad)] at hround
              exact Option.some_ne_none _ hround.symm
            · exact hrest other hother hfirst
  rw [DatacenterAuthInfo.authSaltForMessageId, hnone _ _ h]
  rfl

/-- The valid salt that comes last has a value other than 0, and one that a longest valid salt
has. -/
def LastIsLongest (saltSet : List DatacenterSaltInfo) (messageId : BitVec 64) : Prop :=
  ∀ before saltInfo after, saltSet = before ++ saltInfo :: after → saltInfo.IsValid messageId →
    (∀ other ∈ after, ¬other.IsValid messageId) →
      saltInfo.salt ≠ 0 ∧ ∃ best : DatacenterSaltInfo, best.IsLongest saltSet messageId ∧
        best.salt = saltInfo.salt

/-- The valid salt that comes last is found first from behind. -/
theorem find?_reverse_of_last {before after : List DatacenterSaltInfo}
    {saltInfo : DatacenterSaltInfo} (hvalid : saltInfo.IsValid messageId)
    (hafter : ∀ other ∈ after, ¬other.IsValid messageId) :
    ((before ++ saltInfo :: after).reverse.find? fun saltInfo => saltInfo.IsValid messageId) =
      some saltInfo := by
  have hnone : (after.reverse.find? fun saltInfo =>
      decide (saltInfo.IsValid messageId)) = none := by
    rw [List.find?_eq_none]
    intro other hother
    simpa using hafter other (List.mem_reverse.mp hother)
  rw [List.reverse_append, List.reverse_cons, List.append_assoc, List.find?_append, hnone,
    Option.none_or, List.singleton_append, List.find?_cons_of_pos (by simpa using hvalid)]

/-- **When the selection is right**: when the valid salt that comes last is as good as one that
stays valid longest. -/
theorem selectsLongest_iff (info : DatacenterAuthInfo α) :
    SelectsLongest info.saltSet messageId (info.authSaltForMessageId messageId) ↔
      NoOverflow info.saltSet messageId ∧ LastIsLongest info.saltSet messageId := by
  constructor
  · rintro ⟨salt, hresult, hzero, hlongest⟩
    have hover : NoOverflow info.saltSet messageId := by
      by_contra hover
      rw [authSaltForMessageId_none info hover] at hresult
      exact Option.some_ne_none _ hresult.symm
    refine ⟨hover, fun before saltInfo after hsplit hvalid hafter => ?_⟩
    have hmem : saltInfo ∈ info.saltSet := by simp [hsplit]
    rw [authSaltForMessageId_eq info hover, lastValidSalt, hsplit,
      find?_reverse_of_last hvalid hafter] at hresult
    obtain rfl : saltInfo.salt = salt := Option.some.inj hresult
    exact ⟨fun h0 => hzero.mp h0 saltInfo hmem hvalid, hlongest ⟨saltInfo, hmem, hvalid⟩⟩
  · rintro ⟨hover, hlast⟩
    refine ⟨_, authSaltForMessageId_eq info hover, ?_⟩
    cases hfound : info.saltSet.reverse.find? fun saltInfo =>
        decide (saltInfo.IsValid messageId) with
    | none =>
        have hnone : ∀ saltInfo ∈ info.saltSet, ¬saltInfo.IsValid messageId := fun saltInfo hs => by
          simpa using List.find?_eq_none.mp hfound saltInfo (List.mem_reverse.mpr hs)
        rw [lastValidSalt, hfound]
        exact ⟨iff_of_true rfl hnone, fun ⟨saltInfo, hs, hvalid⟩ => absurd hvalid (hnone _ hs)⟩
    | some saltInfo =>
        obtain ⟨hvalid, behind, front, hsplit, hbehind⟩ := List.find?_eq_some_iff_append.mp hfound
        have hset : info.saltSet = front.reverse ++ saltInfo :: behind.reverse := by
          rw [← List.reverse_reverse info.saltSet, hsplit]
          simp
        have hvalid : saltInfo.IsValid messageId := by simpa using hvalid
        have hbest := hlast front.reverse saltInfo behind.reverse hset hvalid fun other hother => by
          simpa using hbehind other (List.mem_reverse.mp hother)
        rw [lastValidSalt, hfound]
        refine ⟨iff_of_false hbest.1 fun hnone => hnone saltInfo ?_ hvalid, fun _ => hbest.2⟩
        simp [hset]

end Select

/-! ### Merging -/

section Merge

variable {referenceMessageId : BitVec 64} {saltSet updatedSaltSet : List DatacenterSaltInfo}

/-- What one round of the second loop does. -/
theorem addSalt_cases (referenceMessageId : BitVec 64) (merged : List DatacenterSaltInfo)
    (saltInfo : DatacenterSaltInfo) :
    (addSalt referenceMessageId merged saltInfo = merged ∧
      (referenceMessageId.toInt < saltInfo.lastValidMessageId.toInt →
        ∃ other ∈ merged, other.firstValidMessageId = saltInfo.firstValidMessageId)) ∨
    (addSalt referenceMessageId merged saltInfo = merged ++ [saltInfo] ∧
      referenceMessageId.toInt < saltInfo.lastValidMessageId.toInt ∧
      ∀ other ∈ merged, other.firstValidMessageId ≠ saltInfo.firstValidMessageId) := by
  rw [addSalt]
  split
  case isTrue hexists =>
    obtain ⟨other, hother, hsame⟩ := List.any_eq_true.mp hexists
    exact .inl ⟨rfl, fun _ => ⟨other, hother, by simpa using hsame⟩⟩
  case isFalse hnew =>
    have hall : ∀ other ∈ merged, other.firstValidMessageId ≠ saltInfo.firstValidMessageId := by
      intro other hother hsame
      exact hnew (List.any_eq_true.mpr ⟨other, hother, by simpa using hsame⟩)
    rw [DatacenterSaltInfo.isValidFutureSaltForMessageId]
    split
    case isTrue hlive => exact .inr ⟨rfl, BitVec.slt_iff_toInt_lt.mp hlive, hall⟩
    case isFalse hdead =>
      exact .inl ⟨rfl, fun hlive => absurd (BitVec.slt_iff_toInt_lt.mpr hlive) hdead⟩

/-- Taking in one more update. -/
theorem merges_addSalt {merged : List DatacenterSaltInfo} (saltInfo : DatacenterSaltInfo)
    (h : Merges saltSet updatedSaltSet referenceMessageId merged) :
    Merges saltSet (updatedSaltSet ++ [saltInfo]) referenceMessageId
      (addSalt referenceMessageId merged saltInfo) := by
  have hsubset : ∀ other ∈ merged, other ∈ saltSet ∨ other ∈ updatedSaltSet ++ [saltInfo] :=
    fun other hother => (h.subset other hother).imp_right (List.mem_append_left _)
  -- an update is an old one or the new one
  have hold : ∀ before other after, updatedSaltSet ++ [saltInfo] = before ++ other :: after →
      (∃ after', updatedSaltSet = before ++ other :: after') ∨
        before = updatedSaltSet ∧ other = saltInfo := by
    intro before other after hsplit
    rcases List.eq_nil_or_concat after with rfl | ⟨after', last, rfl⟩
    · obtain ⟨rfl, hlast⟩ := List.append_inj' hsplit rfl
      exact .inr ⟨rfl, (List.singleton_inj.mp hlast).symm⟩
    · rw [List.concat_eq_append, ← List.cons_append, ← List.append_assoc] at hsplit
      exact .inl ⟨after', (List.append_inj' hsplit rfl).1⟩
  rcases addSalt_cases referenceMessageId merged saltInfo with
    ⟨heq, hknown⟩ | ⟨heq, hlive, hnew⟩
  · rw [heq]
    refine ⟨h.distinct, hsubset, h.unexpired, h.keeps, ?_⟩
    intro before other after hsplit hother hfirst
    rcases hold before other after hsplit with ⟨after', hbefore⟩ | ⟨rfl, rfl⟩
    · exact h.adds before other after' hbefore hother hfirst
    · obtain ⟨known, hmem, hsame⟩ := hknown hother
      rcases h.subset known hmem with hset | hset
      · exact absurd hsame (hfirst known (List.mem_append_left _ hset) (h.unexpired known hmem))
      · exact absurd hsame (hfirst known (List.mem_append_right _ hset) (h.unexpired known hmem))
  · rw [heq]
    refine ⟨List.pairwise_append.mpr ⟨h.distinct, List.pairwise_singleton _ _, ?_⟩, ?_, ?_, ?_, ?_⟩
    · intro a ha b hb
      rw [List.mem_singleton.mp hb]
      exact hnew a ha
    · intro other hother
      rcases List.mem_append.mp hother with hother | hother
      · exact hsubset other hother
      · exact .inr (List.mem_append_right _ hother)
    · intro other hother
      rcases List.mem_append.mp hother with hother | hother
      · exact h.unexpired other hother
      · rwa [List.mem_singleton.mp hother]
    · exact fun other hother hother' => List.mem_append_left _ (h.keeps other hother hother')
    · intro before other after hsplit hother hfirst
      rcases hold before other after hsplit with ⟨after', hbefore⟩ | ⟨rfl, rfl⟩
      · exact List.mem_append_left _ (h.adds before other after' hbefore hother hfirst)
      · exact List.mem_append_right _ (List.mem_singleton_self _)

/-- **What merging keeps and adds.** -/
theorem mergeSaltSet_merges (info : DatacenterAuthInfo α)
    (hdistinct : DistinctSalts info.saltSet) (updatedSaltSet : List DatacenterSaltInfo)
    (referenceMessageId : BitVec 64) :
    Merges info.saltSet updatedSaltSet referenceMessageId
      (info.mergeSaltSet updatedSaltSet referenceMessageId).saltSet := by
  rw [DatacenterAuthInfo.mergeSaltSet]
  dsimp only
  induction updatedSaltSet using List.reverseRecOn with
  | nil =>
      refine ⟨hdistinct.sublist List.filter_sublist, fun s hs => .inl (List.mem_filter.mp hs).1,
        fun s hs => BitVec.slt_iff_toInt_lt.mp (List.mem_filter.mp hs).2,
        fun s hs hlive => List.mem_filter.mpr ⟨hs, BitVec.slt_iff_toInt_lt.mpr hlive⟩, ?_⟩
      intro before s after hsplit
      exact absurd hsplit (by simp)
  | append_singleton updates saltInfo ih =>
      rw [List.foldl_append]
      exact merges_addSalt saltInfo ih

end Merge

/-! ### Both -/

/-- **Salt selection and merging.** Merging does what it is for, always; the selection does exactly
if no difference overflows and the valid salt that comes last is as good as one that stays valid
longest. -/
theorem saltSet_iff (info : DatacenterAuthInfo α) (messageId : BitVec 64)
    (updatedSaltSet : List DatacenterSaltInfo) (referenceMessageId : BitVec 64) :
    SelectsLongest info.saltSet messageId (info.authSaltForMessageId messageId) ∧
        (DistinctSalts info.saltSet → Merges info.saltSet updatedSaltSet referenceMessageId
          (info.mergeSaltSet updatedSaltSet referenceMessageId).saltSet) ↔
      NoOverflow info.saltSet messageId ∧ LastIsLongest info.saltSet messageId := by
  rw [← selectsLongest_iff]
  exact and_iff_left fun hdistinct => mergeSaltSet_merges info hdistinct _ _

/-- A salt that is valid for long is followed by one that soon expires, and that one is taken. -/
theorem not_selectsLongest_shortLast :
    let info : DatacenterAuthInfo Unit := ⟨[], 0, [⟨1, 0, 100⟩, ⟨2, 1, 10⟩], ()⟩
    ¬SelectsLongest info.saltSet 5 (info.authSaltForMessageId 5) := by
  rintro info ⟨salt, hsalt, -, hlongest⟩
  obtain rfl : (2 : BitVec 64) = salt := Option.some.inj hsalt
  obtain ⟨best, ⟨hmem, -, hbest⟩, hvalue⟩ := hlongest ⟨⟨1, 0, 100⟩, by decide, by decide⟩
  have hlong := hbest ⟨1, 0, 100⟩ (by decide) (by decide)
  rcases List.mem_pair.mp hmem with rfl | rfl
  · exact absurd hvalue (by decide)
  · exact absurd hlong (by decide)

end Telegraph.MtProto
