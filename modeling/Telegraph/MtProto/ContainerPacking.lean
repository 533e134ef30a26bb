import Telegraph.MtProto.Transaction

/-!
# Container Packing

The part of `transportReadyForTransaction:` that sorts the prepared messages, moves those of high
priority to the front and cuts the list into payloads, with the indices of its loops. The loop over
the messages stands inside the loop over the payloads; the index of the outer loop is advanced by
the inner one, by the branch for a message that does not fit anywhere, and by the branch for plain
messages. Whether a message of high priority was seen is remembered from one payload to the next.

`sortUsingComparator:` never finds two messages equal, so messages of one id may come in any order.

## Main results

* `cutLoop_eq_containers`: the loops by index are `containers`.
* `total_fillContainer`, `uniform_fillContainer`: what fits into one container.
* `packMessages_spec`: **the loops end, and what the payloads are.**
-/

namespace Telegraph.MtProto

/-! ### The loops -/

/-- What `sortUsingComparator:` leaves of the messages. -/
structure SortedByMessageId (ms sorted : List PreparedMessage) : Prop where
  perm : sorted.Perm ms
  ascending : sorted.Pairwise fun a b => a.messageId.sle b.messageId = true

/-- The loop that takes the messages of high priority out of the list. When one is removed, the
index stays at its place. -/
def takeHighPriority : ℕ → ℕ → List PreparedMessage → List PreparedMessage →
    Option (List PreparedMessage × List PreparedMessage)
  | 0, _, _, _ => none
  | fuel + 1, i, highPriorityMessages, ms =>
      match ms[i]? with
      | none => some (highPriorityMessages, ms)
      | some m =>
          if m.hasHighPriority then
            takeHighPriority fuel i (highPriorityMessages ++ [m]) (ms.eraseIdx i)
          else takeHighPriority fuel (i + 1) highPriorityMessages ms

/-- What comes before the loops that cut. A list of one message is left as it is. -/
def reorderMessages (fuel : ℕ) (forceConfirmations : Bool) (ms sorted : List PreparedMessage) :
    Option (List PreparedMessage) :=
  if ms.length = 1 then some ms
  else if forceConfirmations then some sorted
  else
    match takeHighPriority fuel 0 [] sorted with
    | none => none
    | some (highPriorityMessages, rest) => some (highPriorityMessages ++ rest)

/-- The loop over `j`. Returns `i`, `currentContainerMessages` and
`currentlyProcessingHighPriority`. -/
def containerLoop (forceConfirmations : Bool) (ms : List PreparedMessage) :
    ℕ → ℕ → ℕ → List PreparedMessage → ℕ → Bool →
      Option (ℕ × List PreparedMessage × Bool)
  | 0, _, _, _, _, _ => none
  | fuel + 1, i, j, currentContainerMessages, currentContainerSize, high =>
      match ms[j]? with
      | none => some (i, currentContainerMessages, high)
      | some m =>
          let breakContainer := !forceConfirmations && !m.hasHighPriority && high
          let high' := if forceConfirmations then high else m.hasHighPriority
          if currentContainerSize + m.data.length > maxContainerSize ∨
              (breakContainer = true ∧ currentContainerSize ≠ 0) then
            if currentContainerSize = 0 then
              some (i + 1, currentContainerMessages ++ [m], high')
            else some (i, currentContainerMessages, high')
          else
            containerLoop forceConfirmations ms fuel (i + 1) (j + 1)
              (currentContainerMessages ++ [m]) (currentContainerSize + m.data.length) high'

/-- The loop over `i`. Only a container with messages becomes a payload. -/
def cutLoop (useUnauthorizedMode forceConfirmations : Bool) (ms : List PreparedMessage) :
    ℕ → ℕ → Bool → List (List PreparedMessage) → Option (List (List PreparedMessage))
  | 0, _, _, _ => none
  | fuel + 1, i, high, payloads =>
      match ms[i]? with
      | none => some payloads
      | some m =>
          if useUnauthorizedMode then
            cutLoop useUnauthorizedMode forceConfirmations ms fuel (i + 1) high
              (payloads ++ [[m]])
          else
            match containerLoop forceConfirmations ms (fuel + 1) i i [] 0 high with
            | none => none
            | some (i', currentContainerMessages, high') =>
                cutLoop useUnauthorizedMode forceConfirmations ms fuel i' high'
                  (if currentContainerMessages = [] then payloads
                    else payloads ++ [currentContainerMessages])

/-- The messages in their new order, and the messages of each payload. -/
def packMessages (useUnauthorizedMode forceConfirmations : Bool) (fuel : ℕ)
    (ms sorted : List PreparedMessage) :
    Option (List PreparedMessage × List (List PreparedMessage)) :=
  match reorderMessages fuel forceConfirmations ms sorted with
  | none => none
  | some reordered =>
      match cutLoop useUnauthorizedMode forceConfirmations reordered fuel 0 false [] with
      | none => none
      | some payloads => some (reordered, payloads)

/-! ### The loops by index, as recursion over the list -/

section Loops

variable {forceConfirmations : Bool} {ms : List PreparedMessage}

/-- Enough rounds take out the messages of high priority behind the index, in order. -/
theorem takeHighPriority_eq {fuel i : ℕ} {high : List PreparedMessage}
    (hi : i ≤ ms.length) (hfuel : ms.length < fuel + i) :
    takeHighPriority fuel i high ms =
      some (high ++ (ms.drop i).filter PreparedMessage.hasHighPriority,
        ms.take i ++ (ms.drop i).filter fun m => !m.hasHighPriority) := by
  induction fuel generalizing i high ms with
  | zero => omega
  | succ fuel ih =>
      rw [takeHighPriority]
      cases hget : ms[i]? with
      | none =>
          have hlen : ms.length ≤ i := List.getElem?_eq_none_iff.mp hget
          rw [List.drop_of_length_le hlen, List.take_of_length_le hlen]
          simp
      | some m =>
          obtain ⟨hlt, hm⟩ := List.getElem?_eq_some_iff.mp hget
          have hdrop : ms.drop i = m :: ms.drop (i + 1) := by
            rw [List.drop_eq_getElem_cons hlt, hm]
          by_cases hhigh : m.hasHighPriority = true
          · have hlength : (ms.eraseIdx i).length = ms.length - 1 := by
              rw [List.length_eraseIdx_of_lt hlt]
            have herase : ms.eraseIdx i = ms.take i ++ ms.drop (i + 1) :=
              List.eraseIdx_eq_take_drop_succ ms i
            have htake : (ms.eraseIdx i).take i = ms.take i := by
              rw [herase, List.take_append_of_le_length (by rw [List.length_take]; omega),
                List.take_take, min_self]
            have hrest : (ms.eraseIdx i).drop i = ms.drop (i + 1) := by
              rw [herase, List.drop_append_of_le_length (by rw [List.length_take]; omega)]
              simp
            simp only [hhigh, if_true]
            rw [ih (by omega) (by omega), htake, hrest, hdrop, List.filter_cons_of_pos hhigh,
              List.filter_cons_of_neg (by simp [hhigh])]
            simp
          · rw [Bool.not_eq_true] at hhigh
            simp only [hhigh, Bool.false_eq_true, if_false]
            rw [ih (by omega) (by omega), hdrop, List.filter_cons_of_neg (by simp [hhigh]),
              List.filter_cons_of_pos (by simp [hhigh]), List.take_add_one, hget]
            simp

/-- The inner loop takes from the list what `fillContainer` takes, and leaves the index behind
it. -/
theorem containerLoop_eq {fuel j : ℕ} (high : Bool) (size : ℕ) (current : List PreparedMessage)
    (hj : j ≤ ms.length) (hfuel : ms.length < fuel + j) :
    ∃ i', containerLoop forceConfirmations ms fuel j j current size high =
        some (i', (fillContainer forceConfirmations high size current (ms.drop j)).1,
          (fillContainer forceConfirmations high size current (ms.drop j)).2.1) ∧
      i' ≤ ms.length ∧
      ms.drop i' = (fillContainer forceConfirmations high size current (ms.drop j)).2.2 := by
  induction fuel generalizing j size current high with
  | zero => omega
  | succ fuel ih =>
      rw [containerLoop]
      cases hget : ms[j]? with
      | none =>
          have hlen : ms.length ≤ j := List.getElem?_eq_none_iff.mp hget
          refine ⟨j, ?_, hj, ?_⟩
          · rw [List.drop_of_length_le hlen]
            rfl
          · rw [List.drop_of_length_le hlen]
            rfl
      | some m =>
          obtain ⟨hlt, hm⟩ := List.getElem?_eq_some_iff.mp hget
          have hdrop : ms.drop j = m :: ms.drop (j + 1) := by
            rw [List.drop_eq_getElem_cons hlt, hm]
          rw [hdrop, fillContainer]
          dsimp only
          split
          · split
            · exact ⟨j + 1, rfl, hlt, rfl⟩
            · exact ⟨j, rfl, hj, hdrop⟩
          · exact ih _ _ _ hlt (by omega)

/-- **The loops by index are `containers`.** -/
theorem cutLoop_eq_containers {fuel i : ℕ} {high : Bool} {payloads : List (List PreparedMessage)}
    (hi : i ≤ ms.length) (hfuel : ms.length < fuel + i) :
    cutLoop false forceConfirmations ms fuel i high payloads =
      some (payloads ++ containers forceConfirmations fuel high (ms.drop i)) := by
  induction fuel generalizing i high payloads with
  | zero => omega
  | succ fuel ih =>
      rw [cutLoop]
      cases hget : ms[i]? with
      | none =>
          rw [List.drop_of_length_le (List.getElem?_eq_none_iff.mp hget)]
          simp [containers]
      | some m =>
          obtain ⟨hlt, hm⟩ := List.getElem?_eq_some_iff.mp hget
          have hdrop : ms.drop i = m :: ms.drop (i + 1) := by
            rw [List.drop_eq_getElem_cons hlt, hm]
          obtain ⟨i', hloop, hi', hrest⟩ := @containerLoop_eq forceConfirmations ms _ _ high 0 [] hi
            hfuel
          have hpos := length_lt_fillContainer forceConfirmations high m (ms.drop (i + 1))
          have hlen := congrArg List.length
            (fillContainer_append forceConfirmations high 0 [] (m :: ms.drop (i + 1)))
          rw [← hdrop] at hpos hlen
          rw [List.length_append, ← hrest, List.nil_append, List.length_drop,
            List.length_drop] at hlen
          have hne : (fillContainer forceConfirmations high 0 [] (ms.drop i)).1 ≠ [] :=
            List.ne_nil_of_length_pos hpos
          simp only [Bool.false_eq_true, if_false, hloop, hne]
          rw [ih hi' (by omega), hrest, hdrop, containers, ← hdrop]
          simp

/-- Without encryption every message is a payload of its own. -/
theorem cutLoop_plain {fuel i : ℕ} {high : Bool} {payloads : List (List PreparedMessage)}
    (hi : i ≤ ms.length) (hfuel : ms.length < fuel + i) :
    cutLoop true forceConfirmations ms fuel i high payloads =
      some (payloads ++ (ms.drop i).map fun m => [m]) := by
  induction fuel generalizing i payloads with
  | zero => omega
  | succ fuel ih =>
      rw [cutLoop]
      cases hget : ms[i]? with
      | none =>
          rw [List.drop_of_length_le (List.getElem?_eq_none_iff.mp hget)]
          simp
      | some m =>
          obtain ⟨hlt, hm⟩ := List.getElem?_eq_some_iff.mp hget
          have hdrop : ms.drop i = m :: ms.drop (i + 1) := by
            rw [List.drop_eq_getElem_cons hlt, hm]
          simp only [if_true]
          rw [ih hlt (by omega), hdrop]
          simp

end Loops

/-! ### One container -/

/-- The size of some messages. -/
def totalSize (ms : List PreparedMessage) : ℕ := (ms.map fun m => m.data.length).sum

/-- The messages are all of high priority or all not. -/
def UniformPriority (ms : List PreparedMessage) : Prop :=
  ∀ m ∈ ms, ∀ m' ∈ ms, m.hasHighPriority = m'.hasHighPriority

/-- Messages of high priority come before the others. -/
def HighPriorityFirst (ms : List PreparedMessage) : Prop :=
  ms.Pairwise fun m m' => m'.hasHighPriority = true → m.hasHighPriority = true

section Container

variable {forceConfirmations high : Bool} {size : ℕ} {current ms : List PreparedMessage}

@[simp] theorem totalSize_append (ms ms' : List PreparedMessage) :
    totalSize (ms ++ ms') = totalSize ms + totalSize ms' := by
  rw [totalSize, List.map_append, List.sum_append]
  rfl

@[simp] theorem totalSize_singleton (m : PreparedMessage) : totalSize [m] = m.data.length := by
  simp [totalSize]

/-- **A container is small enough or a single message**, as long as no message is empty. -/
theorem total_fillContainer (hdata : ∀ m ∈ ms, m.data ≠ []) (hsize : size = totalSize current)
    (hempty : size = 0 → current = []) (hle : size ≤ maxContainerSize) :
    totalSize (fillContainer forceConfirmations high size current ms).1 ≤ maxContainerSize ∨
      (fillContainer forceConfirmations high size current ms).1.length = 1 := by
  induction ms generalizing high size current with
  | nil => exact .inl (hsize ▸ hle)
  | cons m ms ih =>
      have hpos : 0 < m.data.length := List.length_pos_iff.mpr (hdata m List.mem_cons_self)
      rw [fillContainer]
      split
      · split
        case isTrue hzero =>
          rw [hempty hzero]
          exact .inr rfl
        case isFalse => exact .inl (hsize ▸ hle)
      case isFalse hfits =>
        have hfit : size + m.data.length ≤ maxContainerSize := by
          by_contra hbig
          exact hfits (.inl (by omega))
        refine ih (fun m hm => hdata m (List.mem_cons_of_mem _ hm)) ?_ (fun h => by omega) hfit
        rw [totalSize_append, totalSize_singleton, hsize]

/-- **No container mixes the two priorities** when messages of high priority come first. -/
theorem uniform_fillContainer (hdata : ∀ m ∈ ms, m.data ≠ [])
    (hfirst : HighPriorityFirst (current ++ ms)) (hempty : size = 0 → current = [])
    (huniform : UniformPriority current)
    (hhigh : ∀ m ∈ current, m.hasHighPriority = true → high = true) :
    UniformPriority (fillContainer false high size current ms).1 := by
  induction ms generalizing high size current with
  | nil => exact huniform
  | cons m ms ih =>
      have hpos : 0 < m.data.length := List.length_pos_iff.mpr (hdata m List.mem_cons_self)
      rw [fillContainer]
      simp only [Bool.not_false, Bool.true_and, Bool.false_eq_true, if_false]
      split
      · split
        case isTrue hzero =>
          rw [hempty hzero]
          rintro a ha b hb
          rw [List.mem_singleton.mp ha, List.mem_singleton.mp hb]
        case isFalse => exact huniform
      case isFalse hfits =>
        -- what is in the container already has the priority of the message
        have hsame : ∀ a ∈ current, a.hasHighPriority = m.hasHighPriority := by
          intro a ha
          cases hm : m.hasHighPriority with
          | true =>
              have hall := (List.pairwise_append.mp hfirst).2.2 a ha m List.mem_cons_self
              exact hall hm
          | false =>
              by_contra hother
              have hset : high = true := hhigh a ha (Bool.eq_true_of_not_eq_false hother)
              refine hfits (.inr ⟨by simp [hm, hset], fun hzero => ?_⟩)
              rw [hempty hzero] at ha
              exact List.not_mem_nil ha
        refine ih (fun m hm => hdata m (List.mem_cons_of_mem _ hm)) (by simpa using hfirst)
          (fun h => by omega) ?_ ?_
        · intro a ha b hb
          have hof : ∀ c ∈ current ++ [m], c.hasHighPriority = m.hasHighPriority := by
            intro c hc
            rcases List.mem_append.mp hc with hc | hc
            · exact hsame c hc
            · rw [List.mem_singleton.mp hc]
          rw [hof a ha, hof b hb]
        · intro a ha htrue
          rcases List.mem_append.mp ha with ha | ha
          · rw [← hsame a ha, htrue]
          · rw [← List.mem_singleton.mp ha, htrue]

/-- Every container is filled from some messages left. -/
theorem mem_containers {rounds : ℕ} {g : List PreparedMessage}
    (hg : g ∈ containers forceConfirmations rounds high ms) :
    ∃ high' m rest, m :: rest <:+ ms ∧
      g = (fillContainer forceConfirmations high' 0 [] (m :: rest)).1 := by
  induction rounds generalizing high ms with
  | zero => simp [containers] at hg
  | succ rounds ih =>
      cases ms with
      | nil => simp [containers] at hg
      | cons m ms =>
          rw [containers] at hg
          rcases List.mem_cons.mp hg with rfl | hg
          · exact ⟨high, m, ms, List.suffix_refl _, rfl⟩
          · obtain ⟨high', m', rest, hsuffix, rfl⟩ := ih hg
            refine ⟨high', m', rest, hsuffix.trans ?_, rfl⟩
            exact ⟨_, fillContainer_append forceConfirmations high 0 [] (m :: ms)⟩

end Container

/-! ### The order -/

section Order

variable {forceConfirmations : Bool} {ms sorted : List PreparedMessage}

/-- The order the messages are sent in, from the sorted list. -/
def sendingOrder (forceConfirmations : Bool) (sorted : List PreparedMessage) :
    List PreparedMessage :=
  if forceConfirmations then sorted
  else sorted.filter PreparedMessage.hasHighPriority ++
    sorted.filter fun m => !m.hasHighPriority

theorem sendingOrder_perm (forceConfirmations : Bool) (sorted : List PreparedMessage) :
    (sendingOrder forceConfirmations sorted).Perm sorted := by
  rw [sendingOrder]
  split
  · exact List.Perm.refl _
  · exact List.filter_append_perm _ _

/-- Of each priority the sorted list has the same messages in the same order. -/
theorem filter_sendingOrder (p : Bool) (sorted : List PreparedMessage) :
    ((sendingOrder forceConfirmations sorted).filter fun m => m.hasHighPriority = p) =
      sorted.filter fun m => m.hasHighPriority = p := by
  rw [sendingOrder]
  split
  · rfl
  · rw [List.filter_append, List.filter_filter, List.filter_filter]
    cases p <;> simp

/-- Without `forceConfirmations` the messages of high priority come first. -/
theorem highPriorityFirst_sendingOrder (sorted : List PreparedMessage) :
    HighPriorityFirst (sendingOrder false sorted) := by
  rw [HighPriorityFirst, sendingOrder, if_neg Bool.false_ne_true, List.pairwise_append]
  refine ⟨?_, ?_, ?_⟩
  · exact List.pairwise_of_forall_mem_list fun m hm m' _ _ => (List.mem_filter.mp hm).2
  · refine List.pairwise_of_forall_mem_list fun m _ m' hm' htrue => ?_
    exact absurd htrue (by simpa using (List.mem_filter.mp hm').2)
  · exact fun m hm m' _ _ => (List.mem_filter.mp hm).2

/-- One message needs no sorting. -/
theorem eq_of_length_one (hsorted : SortedByMessageId ms sorted) (hone : ms.length = 1) :
    sorted = ms := by
  obtain ⟨m, rfl⟩ := List.length_eq_one_iff.mp hone
  exact List.perm_singleton.mp hsorted.perm

/-- Enough rounds bring the messages into the order they are sent in. -/
theorem reorderMessages_eq {fuel : ℕ} (hsorted : SortedByMessageId ms sorted)
    (hfuel : ms.length < fuel) :
    reorderMessages fuel forceConfirmations ms sorted =
      some (sendingOrder forceConfirmations sorted) := by
  have hlength := hsorted.perm.length_eq
  rw [reorderMessages]
  split
  case isTrue hone =>
    rw [eq_of_length_one hsorted hone, sendingOrder]
    split
    · rfl
    · obtain ⟨m, rfl⟩ := List.length_eq_one_iff.mp hone
      cases hm : m.hasHighPriority <;> simp [hm]
  case isFalse =>
    cases forceConfirmations with
    | true => rfl
    | false =>
        rw [takeHighPriority_eq (Nat.zero_le _) (by omega)]
        simp [sendingOrder]

end Order

/-! ### The payloads -/

/-- Without encryption every payload is one message, otherwise it is a container's worth. -/
def payloadGroups (useUnauthorizedMode forceConfirmations : Bool)
    (ms : List PreparedMessage) : List (List PreparedMessage) :=
  if useUnauthorizedMode then ms.map fun m => [m]
  else containers forceConfirmations ms.length false ms

/-- More rounds than messages change nothing. -/
theorem containers_rounds {forceConfirmations high : Bool} {rounds rounds' : ℕ}
    {ms : List PreparedMessage} (h : ms.length ≤ rounds) (h' : ms.length ≤ rounds') :
    containers forceConfirmations rounds high ms =
      containers forceConfirmations rounds' high ms := by
  induction rounds generalizing high ms rounds' with
  | zero =>
      obtain rfl := List.eq_nil_of_length_eq_zero (Nat.le_zero.mp h)
      cases rounds' <;> rfl
  | succ rounds ih =>
      cases ms with
      | nil => cases rounds' <;> rfl
      | cons m ms =>
          obtain ⟨rounds', rfl⟩ : ∃ n, rounds' = n + 1 :=
            Nat.exists_eq_succ_of_ne_zero (by rw [List.length_cons] at h'; omega)
          have happend := fillContainer_append forceConfirmations high 0 [] (m :: ms)
          have hpos := length_lt_fillContainer forceConfirmations high m ms
          have hlen := congrArg List.length happend
          simp only [List.length_append, List.nil_append, List.length_cons] at hlen h h'
          have hrest : (fillContainer forceConfirmations high 0 [] (m :: ms)).2.2.length ≤ rounds ∧
              (fillContainer forceConfirmations high 0 [] (m :: ms)).2.2.length ≤ rounds' := by
            omega
          rw [containers, containers]
          dsimp only
          rw [ih hrest.1 hrest.2]

/-- Enough rounds cut the list into its payloads. -/
theorem cutLoop_eq {useUnauthorizedMode forceConfirmations : Bool} {fuel : ℕ}
    {ms : List PreparedMessage} (hfuel : ms.length < fuel) :
    cutLoop useUnauthorizedMode forceConfirmations ms fuel 0 false [] =
      some (payloadGroups useUnauthorizedMode forceConfirmations ms) := by
  cases useUnauthorizedMode with
  | true => exact cutLoop_plain (Nat.zero_le _) hfuel
  | false =>
      rw [cutLoop_eq_containers (Nat.zero_le _) hfuel, List.drop_zero, List.nil_append,
        containers_rounds hfuel.le le_rfl]
      rfl

section Groups

variable {useUnauthorizedMode forceConfirmations : Bool} {ms : List PreparedMessage}
  {g : List PreparedMessage}

theorem payloadGroups_flatten :
    (payloadGroups useUnauthorizedMode forceConfirmations ms).flatten = ms := by
  rw [payloadGroups]
  split
  · rw [List.flatten_eq_flatMap, List.flatMap_map]
    exact List.flatMap_singleton' ms
  · exact containers_flatten _ _ _ _ le_rfl

/-- No payload is empty, and each is small enough or a single message. -/
theorem total_payloadGroups (hdata : ∀ m ∈ ms, m.data ≠ [])
    (hg : g ∈ payloadGroups useUnauthorizedMode forceConfirmations ms) :
    g ≠ [] ∧ (totalSize g ≤ maxContainerSize ∨ g.length = 1) := by
  rw [payloadGroups] at hg
  split at hg
  · obtain ⟨m, _, rfl⟩ := List.mem_map.mp hg
    exact ⟨List.cons_ne_nil _ _, .inr rfl⟩
  · obtain ⟨high, m, rest, hsuffix, rfl⟩ := mem_containers hg
    exact ⟨List.ne_nil_of_length_pos (length_lt_fillContainer _ _ _ _),
      total_fillContainer (fun m hm => hdata m (hsuffix.subset hm)) rfl (fun _ => rfl)
        (Nat.zero_le _)⟩

/-- No payload mixes the priorities when messages of high priority come first. -/
theorem uniform_payloadGroups (hdata : ∀ m ∈ ms, m.data ≠ []) (hfirst : HighPriorityFirst ms)
    (hg : g ∈ payloadGroups useUnauthorizedMode false ms) : UniformPriority g := by
  rw [payloadGroups] at hg
  split at hg
  · obtain ⟨m, _, rfl⟩ := List.mem_map.mp hg
    rintro a ha b hb
    rw [List.mem_singleton.mp ha, List.mem_singleton.mp hb]
  · obtain ⟨high, m, rest, hsuffix, rfl⟩ := mem_containers hg
    exact uniform_fillContainer (fun m hm => hdata m (hsuffix.subset hm))
      (hfirst.sublist hsuffix.sublist) (fun _ => rfl)
      (fun _ hm => absurd hm List.not_mem_nil) (fun _ hm => absurd hm List.not_mem_nil)

end Groups

/-- With enough rounds the loops end, with the messages in the order they are sent in and the
payloads cut from it. -/
theorem packMessages_eq {useUnauthorizedMode forceConfirmations : Bool} {fuel : ℕ}
    {ms sorted : List PreparedMessage} (hsorted : SortedByMessageId ms sorted)
    (hfuel : ms.length < fuel) :
    packMessages useUnauthorizedMode forceConfirmations fuel ms sorted =
      some (sendingOrder forceConfirmations sorted,
        payloadGroups useUnauthorizedMode forceConfirmations
          (sendingOrder forceConfirmations sorted)) := by
  have hlength : (sendingOrder forceConfirmations sorted).length < fuel := by
    rw [(sendingOrder_perm _ sorted).length_eq, hsorted.perm.length_eq]
    exact hfuel
  rw [packMessages, reorderMessages_eq hsorted hfuel]
  dsimp only
  rw [cutLoop_eq hlength]

/-- **Container packing.** With enough rounds the loops end. The messages are reordered, ascending
within each priority; the payloads are the reordered list, cut; each is of at most
`MTMaxContainerSize` bytes or a single message; and unless confirmations are forced none mixes the
priorities. -/
theorem packMessages_spec (useUnauthorizedMode forceConfirmations : Bool)
    (ms sorted : List PreparedMessage) (hdata : ∀ m ∈ ms, m.data ≠ [])
    (hsorted : SortedByMessageId ms sorted) :
    ∃ reordered payloads,
      (∀ fuel > ms.length, packMessages useUnauthorizedMode forceConfirmations fuel ms sorted =
        some (reordered, payloads)) ∧
      reordered = sendingOrder forceConfirmations sorted ∧ reordered.Perm ms ∧
      payloads.flatten = reordered ∧
      (∀ g ∈ payloads, g ≠ [] ∧ (totalSize g ≤ maxContainerSize ∨ g.length = 1)) ∧
      (∀ p : Bool, (reordered.filter fun m => m.hasHighPriority = p).Pairwise
        fun a b => a.messageId.sle b.messageId = true) ∧
      (forceConfirmations = false → ∀ g ∈ payloads, UniformPriority g) := by
  have hperm := (sendingOrder_perm forceConfirmations sorted).trans
    hsorted.perm
  have hall : ∀ m ∈ sendingOrder forceConfirmations sorted, m.data ≠ [] :=
    fun m hm => hdata m (hperm.mem_iff.mp hm)
  refine ⟨_, _, fun fuel hfuel => packMessages_eq hsorted hfuel, rfl, hperm,
    payloadGroups_flatten, fun g hg => total_payloadGroups hall hg, fun p => ?_, ?_⟩
  · rw [filter_sendingOrder]
    exact hsorted.ascending.sublist List.filter_sublist
  · rintro rfl g hg
    exact uniform_payloadGroups hall (highPriorityFirst_sendingOrder sorted) hg

/-- An answer of high priority and two requests: the answer goes first and alone. -/
theorem packMessages_answerFirst :
    let message (messageId : BitVec 64) (high : Bool) : PreparedMessage :=
      { messageId := messageId, seqNo := 0, session := 0, fresh := true, messageInternalId := 0,
        data := [1, 2, 3, 4], salt := 0, requiresConfirmation := true, hasHighPriority := high,
        inResponseToMessageId := 0 }
    let ms := [message 4 false, message 12 true, message 8 false]
    let sorted := [message 4 false, message 8 false, message 12 true]
    SortedByMessageId ms sorted ∧
      packMessages false false 4 ms sorted =
        some ([message 12 true, message 4 false, message 8 false],
          [[message 12 true], [message 4 false, message 8 false]]) ∧
      ∃ reordered payloads,
        (∀ fuel > ms.length, packMessages false false fuel ms sorted =
          some (reordered, payloads)) ∧ payloads.flatten = reordered := by
  intro message ms sorted
  have hsorted : SortedByMessageId ms sorted := ⟨by decide, by decide⟩
  obtain ⟨reordered, payloads, hpack, -, -, hflatten, -⟩ :=
    packMessages_spec false false ms sorted (by decide) hsorted
  exact ⟨hsorted, by decide, reordered, payloads, hpack, hflatten⟩

/-! ### The order of a transaction -/

/-- `insertionSort` is one of the ways to sort. -/
theorem sortedByMessageId_insertionSort (ms : List PreparedMessage) :
    SortedByMessageId ms (ms.insertionSort fun a b => a.messageId.sle b.messageId = true) := by
  have : Std.Total fun a b : PreparedMessage => a.messageId.sle b.messageId = true :=
    ⟨fun a b => by simpa only [BitVec.sle_iff_toInt_le] using Int.le_total _ _⟩
  have : IsTrans PreparedMessage fun a b => a.messageId.sle b.messageId = true :=
    ⟨fun a b c => by simpa only [BitVec.sle_iff_toInt_le] using Int.le_trans⟩
  exact ⟨List.perm_insertionSort _ ms, List.pairwise_insertionSort _ ms⟩

/-- **The payloads of a transaction are what the loops cut.** -/
theorem packMessages_insertionSort (forceConfirmations : Bool) (ms : List PreparedMessage) :
    packMessages false forceConfirmations (ms.length + 1) ms
        (ms.insertionSort fun a b => a.messageId.sle b.messageId = true) =
      some (orderMessages forceConfirmations ms,
        containers forceConfirmations ms.length false (orderMessages forceConfirmations ms)) := by
  have hsorted := sortedByMessageId_insertionSort ms
  have horder : orderMessages forceConfirmations ms = sendingOrder forceConfirmations
      (ms.insertionSort fun a b => a.messageId.sle b.messageId = true) := by
    rw [orderMessages]
    by_cases hone : ms.length = 1
    · obtain ⟨m, rfl⟩ := List.length_eq_one_iff.mp hone
      cases forceConfirmations <;> cases hm : m.hasHighPriority <;> simp [sendingOrder, hm]
    · cases forceConfirmations <;> simp [sendingOrder, hone]
  rw [packMessages_eq hsorted (Nat.lt_succ_self _), ← horder, payloadGroups,
    if_neg Bool.false_ne_true, (orderMessages_perm forceConfirmations ms).length_eq]

end Telegraph.MtProto
