import Mathlib.Algebra.Order.BigOperators.Group.Finset
import Telegraph.Messages.Steps

/-!
# The Global Unread Count

The global count is changed by the difference between two sums over the dictionary of peers, so
it stays the sum over the list as long as the list holds what the dictionary holds. A
conversation that is dropped because it became empty keeps its row, as it was before the
transaction.

## Main results

* `value_stored`: what the list holds of a peer changes as the dictionary does.
* `unreadCount_eq_total`: **the global count stays the sum of the counts outside the channels**.
* `stored_nonneg`: no stored count is negative.
-/

open Dictionary

namespace Telegraph.Messages

/-! ### Storing -/

theorem storeConversation_lookup (dropped : ℤ → Bool) (peers : Dictionary ℤ TGConversation)
    (list : Dictionary ℤ TGConversation) (other : ℤ) {k : ℤ}
    (hchannel : TGPeerIdIsChannel k = false) :
    (storeConversation dropped peers list other).lookup k =
      if k = other ∧ k ≠ 0 ∧ dropped k = false then (peers.lookup k).or (list.lookup k)
      else list.lookup k := by
  unfold storeConversation
  by_cases heq : k = other
  · subst heq
    rw [hchannel, if_neg (by decide)]
    cases hpeer : peers.lookup k with
    | none => simp
    | some conversation =>
        by_cases hkept : k ≠ 0 ∧ dropped k = false
        · simp [hkept.1, hkept.2]
        · have hdrop : k = 0 ∨ dropped k = true := by
            rw [not_and_or, not_not, Bool.not_eq_false] at hkept
            exact hkept
          rw [if_neg (fun h => hkept h.2)]
          simp [hdrop]
  · rw [if_neg (c := k = other ∧ k ≠ 0 ∧ dropped k = false) fun h => heq h.1]
    split
    · rfl
    · split
      · split
        · rfl
        · exact AList.lookup_insert_ne heq
      · rfl

/-- A modified conversation is stored unless it is dropped. -/
theorem foldl_storeConversation_lookup (dropped : ℤ → Bool) (peers : Dictionary ℤ TGConversation)
    (keys : List ℤ) (list : Dictionary ℤ TGConversation) {k : ℤ}
    (hchannel : TGPeerIdIsChannel k = false) :
    (keys.foldl (storeConversation dropped peers) list).lookup k =
      if k ∈ keys ∧ k ≠ 0 ∧ dropped k = false then (peers.lookup k).or (list.lookup k)
      else list.lookup k := by
  induction keys generalizing list with
  | nil => simp
  | cons other keys ih =>
      rw [List.foldl_cons, ih, storeConversation_lookup _ _ _ _ hchannel]
      by_cases hkept : k ≠ 0 ∧ dropped k = false
      · have hor : (peers.lookup k).or ((peers.lookup k).or (list.lookup k))
            = (peers.lookup k).or (list.lookup k) := by
          cases peers.lookup k <;> rfl
        simp only [eq_true hkept, and_true, List.mem_cons]
        by_cases heq : k = other
        · simp only [heq, if_true, true_or] at hor ⊢
          rw [hor, ite_self]
        · simp only [heq, if_false, false_or]
      · simp only [hkept, and_false, if_false]

/-! ### The sum -/

/-- Whether a transaction drops a conversation from the list in place of storing it. -/
def drops (order : HashOrder) (request : Request) (database : Database) (k : ℤ) : Bool :=
  isDropped request (prepareTransaction request database).removeEmptyConversations
    (runTransaction order request database) k

/-- An emptied conversation that is dropped has the count of its row. -/
def DroppedUnchanged (order : HashOrder) (request : Request) (database : Database) : Prop :=
  ∀ k c, TGPeerIdIsChannel k = false → k ∉ request.removeConversationsWithPeerIds →
    drops order request database k = true →
      (runTransaction order request database).peers.lookup k = some c →
        (database.conversationList.value nonChannelUnread k) = c.unreadCount

variable {order : HashOrder} {request : Request} {database : Database}

theorem load_of_nonChannel {k : ℤ} (hchannel : TGPeerIdIsChannel k = false) :
    database.loadConversationWithId k = database.conversationList.lookup k := by
  rw [Database.loadConversationWithId, hchannel]
  rfl

theorem value_of_channel {d : Dictionary ℤ TGConversation} {k : ℤ}
    (hchannel : TGPeerIdIsChannel k = true) : d.value nonChannelUnread k = 0 := by
  unfold Dictionary.value
  split
  · rw [nonChannelUnread, hchannel]
    rfl
  · rfl

theorem value_of_lookup {d : Dictionary ℤ TGConversation} {k : ℤ} {c : TGConversation}
    (hchannel : TGPeerIdIsChannel k = false) (hlookup : d.lookup k = some c) :
    d.value nonChannelUnread k = c.unreadCount := by
  rw [value_of_some hlookup, nonChannelUnread, hchannel]
  rfl

theorem value_congr {d d' : Dictionary ℤ TGConversation} {k : ℤ}
    (h : d.lookup k = d'.lookup k) :
    d.value nonChannelUnread k = d'.value nonChannelUnread k := by
  rw [Dictionary.value, h, Dictionary.value]

/-- What the list holds of a peer after a transaction. -/
theorem stored_lookup (hdatabase : database.Counted) (hrequest : request.WellGiven database)
    {k : ℤ} (hchannel : TGPeerIdIsChannel k = false) :
    (transactionAddMessages order request database).conversationList.lookup k =
      if k ∈ (runTransaction order request database).modifiedPeerIds ∧ k ≠ 0 ∧
          drops order request database k = false then
        ((runTransaction order request database).peers.lookup k).or
          (if k ∈ request.removeConversationsWithPeerIds then none
            else database.conversationList.lookup k)
      else
        if k ∈ request.removeConversationsWithPeerIds then none
          else database.conversationList.lookup k := by
  have hlist := (@follows_runTransaction order request database hdatabase hrequest).list k hchannel
  have hmem := (order.perm (runTransaction order request database).modifiedPeerIds).mem_iff (a := k)
  unfold transactionAddMessages
  dsimp only
  rw [foldl_storeConversation_lookup _ _ _ _ hchannel, hlist]
  simp only [hmem]
  rfl

/-- What the list holds of a peer changes as the dictionary does. -/
theorem value_stored (hdatabase : database.Counted) (hrequest : request.WellGiven database)
    (hdropped : DroppedUnchanged order request database) (k : ℤ) :
    (transactionAddMessages order request database).conversationList.value nonChannelUnread k
        - database.conversationList.value nonChannelUnread k =
      (runTransaction order request database).peers.value nonChannelUnread k
        - (startTransaction request database).peers.value nonChannelUnread k := by
  have hfollows := @follows_runTransaction order request database hdatabase hrequest
  cases hchannel : TGPeerIdIsChannel k with
  | true => simp only [value_of_channel hchannel]
  | false =>
      have hstored := @stored_lookup order request database hdatabase hrequest k hchannel
      cases hpeer : (runTransaction order request database).peers.lookup k with
      | none =>
          have hstart : (startTransaction request database).peers.lookup k = none := by
            by_contra hsome
            have hmem := hfollows.known k
              (AList.lookup_isSome.mp (Option.isSome_iff_ne_none.mpr hsome))
            exact AList.lookup_eq_none.mp hpeer hmem
          have hsame : (if k ∈ request.removeConversationsWithPeerIds then none
              else database.conversationList.lookup k) = database.conversationList.lookup k := by
            split
            · rename_i hk
              rw [← load_of_nonChannel hchannel, ← start_lookup (removed_prepared hk), hstart]
            · rfl
          rw [hpeer, Option.none_or, ite_self, hsame] at hstored
          rw [value_congr hstored, value_of_none hpeer, value_of_none hstart]
          omega
      | some c =>
          have hprepared : k ∈ (prepareTransaction request database).peerIds :=
            hfollows.mem_peerIds (fun _ => startTransaction_mem)
              (AList.lookup_isSome.mp (by rw [hpeer]; rfl))
          have hstart := (start_lookup hprepared).trans (load_of_nonChannel hchannel)
          have hne := hfollows.ne_zero hpeer
          have hvalue : (transactionAddMessages order request database).conversationList.value
              nonChannelUnread k = c.unreadCount := by
            rw [hpeer] at hstored
            split at hstored
            · exact value_of_lookup hchannel hstored
            · rename_i hkept
              by_cases hremoved : k ∈ request.removeConversationsWithPeerIds
              · rw [if_pos hremoved] at hstored
                rw [value_of_none hstored, removed_unreadCount hdatabase hrequest hremoved hpeer]
              · rw [if_neg hremoved] at hstored
                rw [value_congr hstored]
                cases hdrops : drops order request database k with
                | true => exact hdropped k c hchannel hremoved hdrops hpeer
                | false =>
                    have huntouched : (runTransaction order request database).peers.lookup k
                        = (startTransaction request database).peers.lookup k := by
                      by_contra hedited
                      exact hkept ⟨(hfollows.edited k hedited).2, hne, hdrops⟩
                    exact value_of_lookup hchannel (hstart ▸ huntouched ▸ hpeer)
          rw [hvalue, value_congr hstart, value_of_lookup hchannel hpeer]

/-- The list and the dictionary change by the same total. -/
theorem total_stored (hdatabase : database.Counted) (hrequest : request.WellGiven database)
    (hdropped : DroppedUnchanged order request database) :
    (transactionAddMessages order request database).conversationList.total nonChannelUnread
        - database.conversationList.total nonChannelUnread =
      (runTransaction order request database).peers.total nonChannelUnread
        - (startTransaction request database).peers.total nonChannelUnread := by
  let keys := (transactionAddMessages order request database).conversationList.keys.toFinset ∪
    database.conversationList.keys.toFinset ∪
    (runTransaction order request database).peers.keys.toFinset ∪
    (startTransaction request database).peers.keys.toFinset
  have hcovers : ∀ d : Dictionary ℤ TGConversation, d.keys.toFinset ⊆ keys →
      d.total nonChannelUnread = ∑ k ∈ keys, d.value nonChannelUnread k :=
    fun d hd => total_eq_sum nonChannelUnread fun k hk =>
      hd (List.mem_toFinset.mpr (AList.mem_keys.mp hk))
  rw [hcovers _ (fun k hk => by simp only [keys, Finset.mem_union]; tauto),
    hcovers _ (fun k hk => by simp only [keys, Finset.mem_union]; tauto),
    hcovers _ (fun k hk => by simp only [keys, Finset.mem_union]; tauto),
    hcovers _ (fun k hk => by simp only [keys, Finset.mem_union]; tauto),
    ← Finset.sum_sub_distrib, ← Finset.sum_sub_distrib]
  exact Finset.sum_congr rfl fun k _ => value_stored hdatabase hrequest hdropped k

/-- No stored count is negative. -/
theorem stored_nonneg (hdatabase : database.Counted) (hrequest : request.WellGiven database)
    {k : ℤ} {c : TGConversation} (hchannel : TGPeerIdIsChannel k = false)
    (hlookup : (transactionAddMessages order request database).conversationList.lookup k
      = some c) : 0 ≤ c.unreadCount := by
  have hfollows := @follows_runTransaction order request database hdatabase hrequest
  have hrow : ∀ c, (if k ∈ request.removeConversationsWithPeerIds then none
      else database.conversationList.lookup k) = some c → 0 ≤ c.unreadCount := by
    intro c hc
    split at hc
    · cases hc
    · exact hdatabase.counts k c ((load_of_nonChannel hchannel).trans hc)
  rw [stored_lookup hdatabase hrequest hchannel] at hlookup
  split at hlookup
  · cases hpeer : (runTransaction order request database).peers.lookup k with
    | none => exact hrow c (by rw [hpeer, Option.none_or] at hlookup; exact hlookup)
    | some stored =>
        rw [hpeer, Option.some_or] at hlookup
        exact hfollows.counts k c (hpeer.trans hlookup)
  · exact hrow c hlookup

theorem total_nonneg {d : Dictionary ℤ TGConversation}
    (hcounts : ∀ k c, TGPeerIdIsChannel k = false → d.lookup k = some c → 0 ≤ c.unreadCount) :
    0 ≤ d.total nonChannelUnread := by
  rw [total_eq_sum_keys]
  refine Finset.sum_nonneg fun k _ => ?_
  cases hchannel : TGPeerIdIsChannel k with
  | true => rw [value_of_channel hchannel]
  | false =>
      cases hlookup : d.lookup k with
      | none => rw [value_of_none hlookup]
      | some c =>
          rw [value_of_lookup hchannel hlookup]
          exact hcounts k c hchannel hlookup

/-- **The global count stays the sum of the counts outside the channels.** -/
theorem unreadCount_eq_total (hdatabase : database.Counted)
    (hrequest : request.WellGiven database)
    (hdropped : DroppedUnchanged order request database) :
    (transactionAddMessages order request database).unreadCount =
      (transactionAddMessages order request database).conversationList.total nonChannelUnread := by
  have htotal := @total_stored order request database hdatabase hrequest hdropped
  have hnonneg := total_nonneg fun k c =>
    @stored_nonneg order request database hdatabase hrequest k c
  have hglobal : (runTransaction order request database).database.unreadCount
      = database.conversationList.total nonChannelUnread :=
    (@follows_runTransaction order request database hdatabase hrequest).global.trans hdatabase.global
  have hcount : (transactionAddMessages order request database).unreadCount =
      if (startTransaction request database).peers.total nonChannelUnread
        ≠ (runTransaction order request database).peers.total nonChannelUnread then
        max 0 ((runTransaction order request database).database.unreadCount +
          ((runTransaction order request database).peers.total nonChannelUnread
            - (startTransaction request database).peers.total nonChannelUnread))
      else (runTransaction order request database).database.unreadCount := rfl
  rw [hcount, hglobal]
  split
  · rw [max_eq_right (by omega)]
    omega
  · omega

/-- The global count is not negative, whatever is dropped. -/
theorem unreadCount_nonneg (hdatabase : database.Counted)
    (hrequest : request.WellGiven database) :
    0 ≤ (transactionAddMessages order request database).unreadCount := by
  have hglobal : (runTransaction order request database).database.unreadCount
      = database.conversationList.total nonChannelUnread :=
    (@follows_runTransaction order request database hdatabase hrequest).global.trans hdatabase.global
  have hnonneg : 0 ≤ database.conversationList.total nonChannelUnread :=
    total_nonneg fun k c hchannel hlookup =>
      hdatabase.counts k c ((load_of_nonChannel hchannel).trans hlookup)
  unfold transactionAddMessages
  dsimp only
  split
  · exact le_max_left _ _
  · rw [hglobal]
    exact hnonneg

end Telegraph.Messages
