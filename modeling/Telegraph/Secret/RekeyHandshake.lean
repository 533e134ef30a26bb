import Mathlib.Algebra.Order.Group.Multiset
import Mathlib.Data.Multiset.Filter
import Mathlib.Data.Multiset.Count
import Telegraph.Secret.Rekey

/-!
# The Handshake as an Exchange of Messages

The handshake without rows, blocks and threads: of each client only the state of its
conversation when all pending writes are done, what it has drawn and accepted, and the keys it
has stored or is about to store; between the clients two bags of messages. This module states
what holds of such a pair of views and that drawing, sending, taking, accepting, committing,
storing and aborting keep it.

## Main results

* `MTExp_comm`: both sides compute the same number.
* `InStep`: **what holds of two clients and the messages between them**.
* `InStep.store`, `InStep.commitKey_expected`: a `commitKey` finds the exchange it belongs to.
* `InStep.key_unique`: **keys of one exchange are equal**.
-/

namespace Telegraph.Secret

/-- **Both sides compute the same number.** -/
theorem MTExp_comm (g a b p : ℕ) :
    MTExp (MTExp g a p) b p = MTExp (MTExp g b p) a p := by
  simp only [MTExp, ← Nat.pow_mod, ← pow_mul, Nat.mul_comm a b]

/-- The key of an exchange for which `a` and `b` were drawn. -/
def RekeyConfig.agreedKey (config : RekeyConfig) (exchangeId : ℤ) (a b : ℕ) : ExchangedKey :=
  let key := RekeyConfig.keyBytes (MTExp (MTExp config.g a config.p) b config.p)
  ⟨exchangeId, key, config.keyFingerprint key⟩

/-! ### Views -/

/-- What the handshake needs of a client. -/
structure RekeyView where
  final : EncryptedConversationData
  drawn : List (ℤ × ℕ)
  accepted : List (ℤ × ℕ)
  promised : List ExchangedKey

namespace RekeyView

def drawnIds (x : RekeyView) : List ℤ := x.drawn.map Prod.fst

def acceptedIds (x : RekeyView) : List ℤ := x.accepted.map Prod.fst

def promisedIds (x : RekeyView) : List ℤ := x.promised.map ExchangedKey.exchangeId

end RekeyView

/-- The exchange that a message requests. -/
def RekeyMessage.requestId : RekeyMessage → Option ℤ
  | .requestKey exchangeId _ => some exchangeId
  | _ => none

/-- The exchange that a message commits. -/
def RekeyMessage.commitId : RekeyMessage → Option ℤ
  | .commitKey exchangeId _ => some exchangeId
  | _ => none

def requestIds (messages : Multiset RekeyMessage) : Multiset ℤ :=
  messages.filterMap RekeyMessage.requestId

def commitIds (messages : Multiset RekeyMessage) : Multiset ℤ :=
  messages.filterMap RekeyMessage.commitId

namespace EncryptedConversationData

/-- The exchange that the client has requested, if it is in one. -/
def localIds (data : EncryptedConversationData) : Multiset ℤ :=
  if data.currentRekeyIsInitiatedByLocalClient ∧ data.currentRekeyExchangeId ≠ 0 then
    {data.currentRekeyExchangeId}
  else 0

/-- After `markHandshakeAsAborted:`. -/
def closed (data : EncryptedConversationData) (exchangeId : ℤ) : EncryptedConversationData :=
  if data.currentRekeyExchangeId = exchangeId then data.cleared else data

@[simp] theorem localIds_cleared (data : EncryptedConversationData) :
    data.cleared.localIds = 0 := rfl

@[simp] theorem cleared_exchangeId (data : EncryptedConversationData) :
    data.cleared.currentRekeyExchangeId = 0 := rfl

theorem mem_localIds {data : EncryptedConversationData} {X : ℤ} :
    X ∈ data.localIds ↔ data.currentRekeyIsInitiatedByLocalClient = true ∧
      data.currentRekeyExchangeId ≠ 0 ∧ X = data.currentRekeyExchangeId := by
  unfold localIds
  split
  · rename_i h
    simp [h.1, h.2]
  · rename_i h
    simp only [Multiset.notMem_zero, false_iff]
    rintro ⟨hlocal, hne, -⟩
    exact h ⟨hlocal, hne⟩

theorem localIds_closed_le (data : EncryptedConversationData) (X : ℤ) :
    (data.closed X).localIds ≤ data.localIds := by
  unfold closed
  split
  · exact Multiset.zero_le _
  · exact le_refl _

end EncryptedConversationData

open EncryptedConversationData RekeyView

/-- The exchanges of a client that may still be completed: it waits for the answer, or its
`commitKey` is on its way. -/
def openIds (x : RekeyView) (sent : Multiset RekeyMessage) : Multiset ℤ :=
  commitIds sent + x.final.localIds

/-! ### What holds -/

section Sound

variable (config : RekeyConfig) (first : ExchangedKey)

/-- What a message on its way from `x` to `y` says. -/
def Known (x y : RekeyView) : RekeyMessage → Prop
  | .requestKey X gA => ∃ a, (X, a) ∈ x.drawn ∧ gA = MTExp config.g a config.p
  | .acceptKey X gB keyFingerprint => ∃ a b, (X, a) ∈ y.drawn ∧ (X, b) ∈ x.accepted ∧
      gB = MTExp config.g b config.p ∧
        keyFingerprint = (config.agreedKey X a b).keyFingerprint
  | .commitKey X keyFingerprint => ∃ a b, (X, a) ∈ x.drawn ∧ (X, b) ∈ y.accepted ∧
      keyFingerprint = (config.agreedKey X a b).keyFingerprint
  | .abortKey X => X ∈ x.drawnIds ∨ X ∈ y.drawnIds
  | .other => True

/-- What the conversation of `x` says of the exchange it is in. -/
def DataKnown (x y : RekeyView) : Prop :=
  x.final.currentRekeyExchangeId ≠ 0 →
    if x.final.currentRekeyIsInitiatedByLocalClient then
      ∃ a, (x.final.currentRekeyExchangeId, a) ∈ x.drawn ∧ x.final.currentRekeyNumber = some a
    else
      ∃ a b, (x.final.currentRekeyExchangeId, a) ∈ y.drawn ∧
        (x.final.currentRekeyExchangeId, b) ∈ x.accepted ∧
        x.final.currentRekeyKey
          = some (config.agreedKey x.final.currentRekeyExchangeId a b).key ∧
        x.final.currentRekeyKeyId
          = (config.agreedKey x.final.currentRekeyExchangeId a b).keyFingerprint

/-- A key of an exchange for which both have drawn a number. -/
def Agreed (x y : RekeyView) (key : ExchangedKey) : Prop :=
  ∃ a b, ((key.exchangeId, a) ∈ x.drawn ∧ (key.exchangeId, b) ∈ y.accepted ∨
      (key.exchangeId, a) ∈ y.drawn ∧ (key.exchangeId, b) ∈ x.accepted) ∧
    key = config.agreedKey key.exchangeId a b

/-- What holds of the exchanges that `x` requests and of the messages it sends to `y`. -/
structure Sound (x y : RekeyView) (sent : Multiset RekeyMessage) : Prop where
  fresh : (x.drawnIds ++ y.drawnIds).Nodup
  nonzero : 0 ∉ x.drawnIds
  known : ∀ message ∈ sent, Known config x y message
  accepted : requestIds sent + (y.acceptedIds : Multiset ℤ) ≤ (x.drawnIds : Multiset ℤ)
  opened : openIds x sent ≤ (x.drawnIds : Multiset ℤ)
  data : DataKnown config x y
  waiting : ∀ X ∈ openIds x sent, X ∈ y.acceptedIds →
    y.final.currentRekeyExchangeId = X ∧ y.final.currentRekeyIsInitiatedByLocalClient = false
  aborted : ∀ X, .abortKey X ∈ sent → X ∈ x.drawnIds → X ∉ openIds x sent
  promised : ∀ key ∈ x.promised, key = first ∨ Agreed config x y key

/-- The keys of both are the same, but for those whose `commitKey` is on its way. -/
def History (x y : RekeyView) (sent received : Multiset RekeyMessage) : Prop :=
  ∃ common ahead behind : List ℤ, x.promisedIds = common ++ ahead ∧
    y.promisedIds = common ++ behind ∧ (ahead : Multiset ℤ) = commitIds sent ∧
    (behind : Multiset ℤ) = commitIds received ∧ (ahead = [] ∨ behind = [])

/-- **What holds of two clients and the messages between them.** -/
structure InStep (x y : RekeyView) (sent received : Multiset RekeyMessage) : Prop where
  forward : Sound config first x y sent
  backward : Sound config first y x received
  history : History x y sent received

end Sound

variable {config : RekeyConfig} {first : ExchangedKey} {x y : RekeyView}
variable {sent received rest : Multiset RekeyMessage} {message : RekeyMessage} {X : ℤ}

theorem InStep.symm (h : InStep config first x y sent received) :
    InStep config first y x received sent := by
  obtain ⟨common, ahead, behind, hx, hy, hahead, hbehind, hempty⟩ := h.history
  exact ⟨h.backward, h.forward, common, behind, ahead, hy, hx, hbehind, hahead, hempty.symm⟩

/-! ### Bags of messages -/

theorem requestIds_cons (message : RekeyMessage) (messages : Multiset RekeyMessage) :
    requestIds (message ::ₘ messages) =
      (message.requestId.elim 0 fun X => {X}) + requestIds messages := by
  unfold requestIds
  cases hid : message.requestId with
  | none => rw [Multiset.filterMap_cons_none _ _ hid, Option.elim_none, zero_add]
  | some X => rw [Multiset.filterMap_cons_some _ _ _ hid, Option.elim_some, Multiset.singleton_add]

theorem commitIds_cons (message : RekeyMessage) (messages : Multiset RekeyMessage) :
    commitIds (message ::ₘ messages) =
      (message.commitId.elim 0 fun X => {X}) + commitIds messages := by
  unfold commitIds
  cases hid : message.commitId with
  | none => rw [Multiset.filterMap_cons_none _ _ hid, Option.elim_none, zero_add]
  | some X => rw [Multiset.filterMap_cons_some _ _ _ hid, Option.elim_some, Multiset.singleton_add]

theorem commitIds_cons_of_none (h : message.commitId = none) :
    commitIds (message ::ₘ rest) = commitIds rest := by
  rw [commitIds_cons, h, Option.elim_none, zero_add]

theorem requestIds_le_cons : requestIds rest ≤ requestIds (message ::ₘ rest) := by
  rw [requestIds_cons]
  exact Multiset.le_add_left _ _

theorem commitIds_le_cons : commitIds rest ≤ commitIds (message ::ₘ rest) := by
  rw [commitIds_cons]
  exact Multiset.le_add_left _ _

theorem mem_commitIds : X ∈ commitIds sent ↔ ∃ fingerprint, .commitKey X fingerprint ∈ sent := by
  unfold commitIds
  rw [Multiset.mem_filterMap]
  constructor
  · rintro ⟨message, hmem, hid⟩
    cases message with
    | commitKey Y fingerprint =>
        obtain rfl : Y = X := Option.some.inj hid
        exact ⟨fingerprint, hmem⟩
    | _ => cases hid
  · rintro ⟨fingerprint, hmem⟩
    exact ⟨_, hmem, rfl⟩

/-! ### Facts of a sound pair -/

/-- A view has drawn and accepted what it had before. -/
structure RekeyView.Grows (x x' : RekeyView) : Prop where
  drawn : x.drawn ⊆ x'.drawn
  accepted : x.accepted ⊆ x'.accepted

theorem RekeyView.Grows.refl (x : RekeyView) : x.Grows x := ⟨fun _ h => h, fun _ h => h⟩

theorem RekeyView.Grows.drawnIds {x x' : RekeyView} (h : x.Grows x') :
    x.drawnIds ⊆ x'.drawnIds :=
  List.map_subset _ h.drawn

theorem Known.mono {x' y' : RekeyView} (hx : x.Grows x') (hy : y.Grows y')
    (h : Known config x y message) : Known config x' y' message := by
  cases message with
  | requestKey X gA =>
      obtain ⟨a, ha, heq⟩ := h
      exact ⟨a, hx.drawn ha, heq⟩
  | acceptKey X gB keyFingerprint =>
      obtain ⟨a, b, ha, hb, heq⟩ := h
      exact ⟨a, b, hy.drawn ha, hx.accepted hb, heq⟩
  | commitKey X keyFingerprint =>
      obtain ⟨a, b, ha, hb, heq⟩ := h
      exact ⟨a, b, hx.drawn ha, hy.accepted hb, heq⟩
  | abortKey X => exact h.imp (fun h => hx.drawnIds h) fun h => hy.drawnIds h
  | other => trivial

theorem Agreed.mono {x' y' : RekeyView} {key : ExchangedKey} (hx : x.Grows x')
    (hy : y.Grows y') (h : Agreed config x y key) : Agreed config x' y' key := by
  obtain ⟨a, b, hdrawn, heq⟩ := h
  exact ⟨a, b, hdrawn.imp (And.imp (fun h => hx.drawn h) fun h => hy.accepted h)
    (And.imp (fun h => hy.drawn h) fun h => hx.accepted h), heq⟩

theorem Agreed.symm {key : ExchangedKey} (h : Agreed config x y key) :
    Agreed config y x key := by
  obtain ⟨a, b, hdrawn, heq⟩ := h
  exact ⟨a, b, hdrawn.symm, heq⟩

theorem DataKnown.mono {x' y' : RekeyView} (hfinal : x'.final = x.final) (hx : x.Grows x')
    (hy : y.Grows y') (h : DataKnown config x y) : DataKnown config x' y' := by
  unfold DataKnown at h ⊢
  rw [hfinal]
  intro hne
  have hdata := h hne
  split at hdata
  · rename_i hlocal
    obtain ⟨a, ha, hnumber⟩ := hdata
    rw [if_pos hlocal]
    exact ⟨a, hx.drawn ha, hnumber⟩
  · rename_i hlocal
    obtain ⟨a, b, ha, hb, hkey⟩ := hdata
    rw [if_neg hlocal]
    exact ⟨a, b, hy.drawn ha, hx.accepted hb, hkey⟩

theorem DataKnown.of_zero (h : x.final.currentRekeyExchangeId = 0) : DataKnown config x y :=
  fun hne => absurd h hne

theorem DataKnown.of_local {a : ℕ} (hlocal : x.final.currentRekeyIsInitiatedByLocalClient = true)
    (hdrawn : (x.final.currentRekeyExchangeId, a) ∈ x.drawn)
    (hnumber : x.final.currentRekeyNumber = some a) : DataKnown config x y := by
  intro _
  rw [if_pos hlocal]
  exact ⟨a, hdrawn, hnumber⟩

theorem DataKnown.of_remote {a b : ℕ}
    (hlocal : x.final.currentRekeyIsInitiatedByLocalClient = false)
    (ha : (x.final.currentRekeyExchangeId, a) ∈ y.drawn)
    (hb : (x.final.currentRekeyExchangeId, b) ∈ x.accepted)
    (hkey : x.final.currentRekeyKey
      = some (config.agreedKey x.final.currentRekeyExchangeId a b).key)
    (hkeyId : x.final.currentRekeyKeyId
      = (config.agreedKey x.final.currentRekeyExchangeId a b).keyFingerprint) :
    DataKnown config x y := by
  intro _
  rw [if_neg (by simp [hlocal])]
  exact ⟨a, b, ha, hb, hkey, hkeyId⟩

namespace Sound

variable (h : Sound config first x y sent)
include h

theorem drawn_nodup : x.drawnIds.Nodup := (List.nodup_append.mp h.fresh).1

theorem disjoint (hx : X ∈ x.drawnIds) : X ∉ y.drawnIds := fun hy =>
  (List.nodup_append.mp h.fresh).2.2 X hx X hy rfl

theorem ne_zero (hx : X ∈ x.drawnIds) : X ≠ 0 := by
  rintro rfl
  exact h.nonzero hx

theorem acceptedIds_subset : y.acceptedIds ⊆ x.drawnIds := fun _ hX =>
  Multiset.mem_coe.mp (Multiset.mem_of_le h.accepted
    (Multiset.mem_add.mpr (Or.inr (Multiset.mem_coe.mpr hX))))

theorem acceptedIds_nodup : y.acceptedIds.Nodup := by
  have hle : (y.acceptedIds : Multiset ℤ) ≤ (x.drawnIds : Multiset ℤ) :=
    le_trans (Multiset.le_add_left _ _) h.accepted
  exact Multiset.coe_nodup.mp (Multiset.nodup_of_le hle (Multiset.coe_nodup.mpr h.drawn_nodup))

theorem openIds_nodup : (openIds x sent).Nodup :=
  Multiset.nodup_of_le h.opened (Multiset.coe_nodup.mpr h.drawn_nodup)

theorem mem_drawnIds_of_open (hX : X ∈ openIds x sent) : X ∈ x.drawnIds :=
  Multiset.mem_coe.mp (Multiset.mem_of_le h.opened hX)

/-- What is committed was accepted. -/
theorem accepted_of_commit (hX : X ∈ commitIds sent) : X ∈ y.acceptedIds := by
  obtain ⟨fingerprint, hmem⟩ := mem_commitIds.mp hX
  obtain ⟨a, b, -, hb, -⟩ := h.known _ hmem
  exact List.mem_map_of_mem hb

/-- Whose `commitKey` is on its way, the receiver is in that exchange. -/
theorem waits_of_commit (hX : X ∈ commitIds sent) :
    y.final.currentRekeyExchangeId = X ∧
      y.final.currentRekeyIsInitiatedByLocalClient = false :=
  h.waiting X (Multiset.mem_add.mpr (Or.inl hX)) (h.accepted_of_commit hX)

/-- A message that does not commit is gone. -/
theorem take (hsent : sent = message ::ₘ rest) (hid : message.commitId = none) :
    Sound config first x y rest := by
  subst hsent
  have hopen : openIds x rest = openIds x (message ::ₘ rest) := by
    rw [openIds, openIds, commitIds_cons_of_none hid]
  exact { h with
    known := fun m hm => h.known m (Multiset.mem_cons_of_mem hm)
    accepted := le_trans (add_le_add_left requestIds_le_cons _) h.accepted
    opened := hopen ▸ h.opened
    waiting := fun Z hZ => h.waiting Z (hopen ▸ hZ)
    aborted := fun Z hZ hdrawn => hopen ▸ h.aborted Z (Multiset.mem_cons_of_mem hZ) hdrawn }

/-- A message that neither requests nor commits is sent. -/
theorem send (hknown : Known config x y message) (hrequest : message.requestId = none)
    (hcommit : message.commitId = none)
    (habort : ∀ X, message = .abortKey X → X ∈ x.drawnIds → X ∉ openIds x sent) :
    Sound config first x y (message ::ₘ sent) := by
  have hopen : openIds x (message ::ₘ sent) = openIds x sent := by
    rw [openIds, openIds, commitIds_cons_of_none hcommit]
  have hrequests : requestIds (message ::ₘ sent) = requestIds sent := by
    rw [requestIds_cons, hrequest, Option.elim_none, zero_add]
  exact { h with
    known := fun m hm => by
      rcases Multiset.mem_cons.mp hm with rfl | hold
      · exact hknown
      · exact h.known m hold
    accepted := by
      rw [hrequests]
      exact h.accepted
    opened := hopen ▸ h.opened
    waiting := fun Z hZ => h.waiting Z (hopen ▸ hZ)
    aborted := fun Z hZ hdrawn => by
      rw [hopen]
      rcases Multiset.mem_cons.mp hZ with heq | hold
      · exact habort Z heq.symm hdrawn
      · exact h.aborted Z hold hdrawn }

end Sound

/-! ### Drawing an exchange -/

namespace RekeyView

/-- An exchange is drawn. -/
def draw (x : RekeyView) (final : EncryptedConversationData) (X : ℤ) (a : ℕ) : RekeyView :=
  { x with final := final, drawn := x.drawn ++ [(X, a)] }

theorem grows_draw (x : RekeyView) (final : EncryptedConversationData) (X : ℤ) (a : ℕ) :
    x.Grows (x.draw final X a) :=
  ⟨List.subset_append_left _ _, fun _ h => h⟩

theorem drawnIds_draw (x : RekeyView) (final : EncryptedConversationData) (X : ℤ) (a : ℕ) :
    (x.draw final X a).drawnIds = x.drawnIds ++ [X] := by
  simp [drawnIds, draw]

end RekeyView

section Draw

variable {final : EncryptedConversationData} {a : ℕ} {sent' : Multiset RekeyMessage}

/-- The conversation after an exchange was drawn: a write that is pending may restore it. -/
def Drawn (x : RekeyView) (final : EncryptedConversationData) (X : ℤ) (a : ℕ) : Prop :=
  final = x.final ∨ x.final.currentRekeyExchangeId = 0 ∧ final.currentRekeyExchangeId = X ∧
    final.currentRekeyIsInitiatedByLocalClient = true ∧ final.currentRekeyNumber = some a

/-- The request may be sent or not. -/
def Requested (config : RekeyConfig) (sent sent' : Multiset RekeyMessage) (X : ℤ) (a : ℕ) :
    Prop :=
  sent' = sent ∨ sent' = .requestKey X (MTExp config.g a config.p) ::ₘ sent

theorem Requested.mem (h : Requested config sent sent' X a) (hmem : message ∈ sent') :
    message ∈ sent ∨ message = .requestKey X (MTExp config.g a config.p) := by
  rcases h with rfl | rfl
  · exact Or.inl hmem
  · exact (Multiset.mem_cons.mp hmem).symm

theorem Requested.commitIds (h : Requested config sent sent' X a) :
    commitIds sent' = commitIds sent := by
  rcases h with rfl | rfl
  · rfl
  · exact commitIds_cons_of_none rfl

theorem Requested.requestIds (h : Requested config sent sent' X a) :
    requestIds sent' ≤ {X} + requestIds sent := by
  rcases h with rfl | rfl
  · exact Multiset.le_add_left _ _
  · exact le_of_eq (requestIds_cons _ _)

/-- Nothing is open that was not, but the exchange that is drawn. -/
theorem Drawn.openIds (hfinal : Drawn x final X a) (hsent : Requested config sent sent' X a) :
    openIds (x.draw final X a) sent' ≤ openIds x sent + {X} := by
  rw [Telegraph.Secret.openIds, hsent.commitIds, Telegraph.Secret.openIds, add_assoc]
  refine add_le_add_right ?_ _
  rcases hfinal with rfl | ⟨-, hid, hlocal, -⟩
  · exact Multiset.le_add_right _ _
  · refine le_trans ?_ (Multiset.le_add_left _ _)
    unfold RekeyView.draw localIds
    rw [hid]
    split
    · exact le_refl _
    · exact Multiset.zero_le _

theorem Sound.draw (h : Sound config first x y sent) (hX : X ≠ 0) (hx : X ∉ x.drawnIds)
    (hy : X ∉ y.drawnIds) (hfinal : Drawn x final X a)
    (hsent : Requested config sent sent' X a) :
    Sound config first (x.draw final X a) y sent' where
  fresh := by
    rw [drawnIds_draw, List.append_assoc, List.singleton_append, List.nodup_middle,
      List.nodup_cons]
    exact ⟨fun hmem => (List.mem_append.mp hmem).elim hx hy, h.fresh⟩
  nonzero := by
    rw [drawnIds_draw, List.mem_append, List.mem_singleton]
    exact fun hmem => hmem.elim h.nonzero hX.symm
  known := by
    intro m hm
    rcases hsent.mem hm with hold | rfl
    · exact (h.known m hold).mono (x.grows_draw final X a) (RekeyView.Grows.refl y)
    · exact ⟨a, List.mem_append_right _ List.mem_cons_self, rfl⟩
  accepted := by
    rw [drawnIds_draw, ← Multiset.coe_add, Multiset.coe_singleton]
    calc requestIds sent' + (y.acceptedIds : Multiset ℤ)
        ≤ {X} + requestIds sent + (y.acceptedIds : Multiset ℤ) :=
          add_le_add_left hsent.requestIds _
      _ = {X} + (requestIds sent + (y.acceptedIds : Multiset ℤ)) := add_assoc _ _ _
      _ ≤ {X} + (x.drawnIds : Multiset ℤ) := add_le_add_right h.accepted _
      _ = (x.drawnIds : Multiset ℤ) + {X} := add_comm _ _
  opened := by
    rw [drawnIds_draw, ← Multiset.coe_add, Multiset.coe_singleton]
    exact le_trans (hfinal.openIds hsent) (add_le_add_left h.opened _)
  data := by
    rcases hfinal with rfl | ⟨-, hid, hlocal, hnumber⟩
    · exact @DataKnown.mono config x y (x.draw x.final X a) y rfl (x.grows_draw _ X a)
        (RekeyView.Grows.refl y) h.data
    · refine DataKnown.of_local hlocal ?_ hnumber
      rw [show (x.draw final X a).final.currentRekeyExchangeId = X from hid]
      exact List.mem_append_right _ List.mem_cons_self
  waiting := by
    intro Z hZ haccepted
    rcases Multiset.mem_add.mp (Multiset.mem_of_le (hfinal.openIds hsent) hZ) with hold | hnew
    · exact h.waiting Z hold haccepted
    · rw [Multiset.mem_singleton.mp hnew] at haccepted
      exact absurd (h.acceptedIds_subset haccepted) hx
  aborted := by
    intro Z hZ hdrawn hopen
    have hold : .abortKey Z ∈ sent := (hsent.mem hZ).resolve_right (by rintro ⟨⟩)
    have hne : Z ≠ X := by
      rintro rfl
      exact (h.known _ hold).elim hx hy
    rw [drawnIds_draw, List.mem_append, List.mem_singleton] at hdrawn
    rcases Multiset.mem_add.mp (Multiset.mem_of_le (hfinal.openIds hsent) hopen) with hmem | hnew
    · exact h.aborted Z hold (hdrawn.resolve_right hne) hmem
    · exact hne (Multiset.mem_singleton.mp hnew)
  promised := fun key hkey => (h.promised key hkey).imp_right
    (Agreed.mono (x.grows_draw final X a) (RekeyView.Grows.refl y))

/-- Of the exchanges of the other client. -/
theorem Sound.draw_other (h : Sound config first y x received) (hx : X ∉ x.drawnIds)
    (hy : X ∉ y.drawnIds) (hfinal : Drawn x final X a) :
    Sound config first y (x.draw final X a) received where
  fresh := by
    rw [drawnIds_draw, ← List.append_assoc, List.nodup_append_comm, List.singleton_append,
      List.nodup_cons]
    exact ⟨fun hmem => (List.mem_append.mp hmem).elim hy hx, h.fresh⟩
  nonzero := h.nonzero
  known := fun m hm =>
    (h.known m hm).mono (RekeyView.Grows.refl y) (x.grows_draw final X a)
  accepted := h.accepted
  opened := h.opened
  data := h.data.mono rfl (RekeyView.Grows.refl y) (x.grows_draw final X a)
  waiting := by
    intro Z hZ haccepted
    rcases hfinal with rfl | ⟨hzero, -⟩
    · exact h.waiting Z hZ haccepted
    · have hwaits := h.waiting Z hZ haccepted
      exact absurd (hwaits.1.symm.trans hzero) (h.ne_zero (h.mem_drawnIds_of_open hZ))
  aborted := h.aborted
  promised := fun key hkey => (h.promised key hkey).imp_right
    (Agreed.mono (RekeyView.Grows.refl y) (x.grows_draw final X a))

/-- **An exchange is drawn.** -/
theorem InStep.draw (h : InStep config first x y sent received) (hX : X ≠ 0)
    (hx : X ∉ x.drawnIds) (hy : X ∉ y.drawnIds) (hfinal : Drawn x final X a)
    (hsent : Requested config sent sent' X a) :
    InStep config first (x.draw final X a) y sent' received := by
  refine ⟨h.forward.draw hX hx hy hfinal hsent, h.backward.draw_other hx hy hfinal, ?_⟩
  obtain ⟨common, ahead, behind, hx, hy, hahead, hbehind, hempty⟩ := h.history
  exact ⟨common, ahead, behind, hx, hy, hahead.trans hsent.commitIds.symm, hbehind, hempty⟩

end Draw

/-! ### Messages -/

/-- A message that does not commit is gone. -/
theorem InStep.take (h : InStep config first x y sent (message ::ₘ rest))
    (hid : message.commitId = none) : InStep config first x y sent rest := by
  obtain ⟨common, ahead, behind, hx, hy, hahead, hbehind, hempty⟩ := h.history
  refine ⟨h.forward, h.backward.take rfl hid, common, ahead, behind, hx, hy, hahead, ?_, hempty⟩
  rw [hbehind, commitIds_cons_of_none hid]

/-- A message that neither requests nor commits is sent. -/
theorem InStep.send (h : InStep config first x y sent received)
    (hknown : Known config x y message) (hrequest : message.requestId = none)
    (hcommit : message.commitId = none)
    (habort : ∀ X, message = .abortKey X → X ∈ x.drawnIds → X ∉ openIds x sent) :
    InStep config first x y (message ::ₘ sent) received := by
  obtain ⟨common, ahead, behind, hx, hy, hahead, hbehind, hempty⟩ := h.history
  refine ⟨h.forward.send hknown hrequest hcommit habort, h.backward, common, ahead, behind, hx,
    hy, ?_, hbehind, hempty⟩
  rw [hahead, commitIds_cons_of_none hcommit]

/-! ### Closing an exchange -/

/-- **An exchange is given up** that the other client does not complete. -/
theorem InStep.close (h : InStep config first x y sent received)
    (hX : X ∈ x.acceptedIds → X ∉ openIds y received) :
    InStep config first { x with final := x.final.closed X } y sent received := by
  have hopen : openIds { x with final := x.final.closed X } sent ≤ openIds x sent :=
    add_le_add_right (x.final.localIds_closed_le X) _
  refine ⟨?_, ?_, h.history⟩
  · exact { h.forward with
      opened := le_trans hopen h.forward.opened
      data := by
        by_cases heq : x.final.currentRekeyExchangeId = X
        · refine DataKnown.of_zero ?_
          rw [closed, if_pos heq]
          rfl
        · have hsame : x.final.closed X = x.final := if_neg heq
          exact @DataKnown.mono config x y { x with final := x.final.closed X } y hsame
            ⟨fun _ h => h, fun _ h => h⟩ (RekeyView.Grows.refl y) h.forward.data
      waiting := fun Z hZ => h.forward.waiting Z (Multiset.mem_of_le hopen hZ)
      aborted := fun Z hZ hdrawn hmem =>
        h.forward.aborted Z hZ hdrawn (Multiset.mem_of_le hopen hmem) }
  · exact { h.backward with
      waiting := by
        intro Z hZ haccepted
        have hwaits := h.backward.waiting Z hZ haccepted
        have hne : x.final.currentRekeyExchangeId ≠ X := by
          rintro rfl
          rw [hwaits.1] at hX
          exact hX haccepted hZ
        rw [closed, if_neg hne]
        exact hwaits }

/-! ### Accepting an exchange -/

/-- **A request is accepted**, which is on its way no longer. -/
theorem InStep.accept (h : InStep config first x y sent received)
    {final : EncryptedConversationData} {a b : ℕ} (ha : (X, a) ∈ y.drawn)
    (htoken : requestIds received + ((x.acceptedIds ++ [X] : List ℤ) : Multiset ℤ)
      ≤ (y.drawnIds : Multiset ℤ))
    (hfree : x.final.currentRekeyExchangeId = 0 ∨
      x.final.currentRekeyIsInitiatedByLocalClient = true)
    (hid : final.currentRekeyExchangeId = X)
    (hlocal : final.currentRekeyIsInitiatedByLocalClient = false)
    (hkey : final.currentRekeyKey = some (config.agreedKey X a b).key)
    (hkeyId : final.currentRekeyKeyId = (config.agreedKey X a b).keyFingerprint) :
    InStep config first { x with final := final, accepted := x.accepted ++ [(X, b)] } y sent
      received := by
  have hgrows : x.Grows { x with final := final, accepted := x.accepted ++ [(X, b)] } :=
    ⟨fun _ h => h, List.subset_append_left _ _⟩
  have hopen : openIds { x with final := final, accepted := x.accepted ++ [(X, b)] } sent
      ≤ openIds x sent := by
    refine add_le_add_right ?_ _
    unfold localIds
    rw [hlocal, if_neg (by simp)]
    exact Multiset.zero_le _
  have hids : RekeyView.acceptedIds
      { x with final := final, accepted := x.accepted ++ [(X, b)] } = x.acceptedIds ++ [X] := by
    simp [acceptedIds]
  refine ⟨?_, ?_, h.history⟩
  · exact { h.forward with
      known := fun m hm => (h.forward.known m hm).mono hgrows (RekeyView.Grows.refl y)
      opened := le_trans hopen h.forward.opened
      data := by
        subst hid
        exact DataKnown.of_remote hlocal ha (List.mem_append_right _ List.mem_cons_self) hkey
          hkeyId
      waiting := fun Z hZ => h.forward.waiting Z (Multiset.mem_of_le hopen hZ)
      aborted := fun Z hZ hdrawn hmem =>
        h.forward.aborted Z hZ hdrawn (Multiset.mem_of_le hopen hmem)
      promised := fun key hmem => (h.forward.promised key hmem).imp_right
        (Agreed.mono hgrows (RekeyView.Grows.refl y)) }
  · exact { h.backward with
      known := fun m hm => (h.backward.known m hm).mono (RekeyView.Grows.refl y) hgrows
      accepted := by
        rw [hids]
        exact htoken
      data := h.backward.data.mono rfl (RekeyView.Grows.refl y) hgrows
      waiting := by
        intro Z hZ haccepted
        rw [hids, List.mem_append, List.mem_singleton] at haccepted
        rcases haccepted with hold | rfl
        · have hwaits := h.backward.waiting Z hZ hold
          rcases hfree with hzero | htrue
          · exact absurd (hwaits.1.symm.trans hzero)
              (h.backward.ne_zero (h.backward.mem_drawnIds_of_open hZ))
          · rw [hwaits.2] at htrue
            cases htrue
        · exact ⟨hid, hlocal⟩
      promised := fun key hmem => (h.backward.promised key hmem).imp_right
        (Agreed.mono (RekeyView.Grows.refl y) hgrows) }

/-! ### Committing and storing a key -/

/-- Nothing is committed while the receiver of the `commitKey` is in another exchange. -/
theorem Sound.commitIds_eq_zero (h : Sound config first x y sent)
    (hy : ∀ X ∈ x.drawnIds, X ∈ y.acceptedIds → y.final.currentRekeyExchangeId = X →
      y.final.currentRekeyIsInitiatedByLocalClient = false → X ∉ commitIds sent) :
    commitIds sent = 0 := by
  refine Multiset.eq_zero_of_forall_notMem fun X hX => ?_
  have hwaits := h.waits_of_commit hX
  have haccepted := h.accepted_of_commit hX
  exact hy X (h.acceptedIds_subset haccepted) haccepted hwaits.1 hwaits.2 hX

/-- An exchange is either waited for or committed, and committed once. -/
theorem Sound.commitIds_of_local (h : Sound config first x y sent)
    (hlocal : X ∈ x.final.localIds) (haccepted : X ∈ y.acceptedIds) : commitIds sent = 0 := by
  have hopen : X ∈ openIds x sent := Multiset.mem_add.mpr (Or.inr hlocal)
  have hwaits := h.waiting X hopen haccepted
  refine h.commitIds_eq_zero fun Z _ _ hZ _ hcommit => ?_
  obtain rfl : X = Z := hwaits.1.symm.trans hZ
  exact Multiset.disjoint_left.mp (Multiset.nodup_add.mp h.openIds_nodup).2.2 hcommit hlocal

/-- **The client that has requested commits.** -/
theorem InStep.commit (h : InStep config first x y sent received) {a b : ℕ}
    (ha : (X, a) ∈ x.drawn) (hb : (X, b) ∈ y.accepted)
    (hid : x.final.currentRekeyExchangeId = X)
    (hlocal : x.final.currentRekeyIsInitiatedByLocalClient = true) :
    InStep config first
      { x with
        final := x.final.cleared
        promised := x.promised ++ [config.agreedKey X a b] } y
      (.commitKey X (config.agreedKey X a b).keyFingerprint ::ₘ sent) received := by
  have hX : X ≠ 0 := h.forward.ne_zero (List.mem_map_of_mem ha)
  have haccepted : X ∈ y.acceptedIds := List.mem_map_of_mem hb
  have hlocalIds : x.final.localIds = {X} := by
    unfold localIds
    rw [hid, if_pos ⟨hlocal, hX⟩]
  have hopen : openIds
      { x with
        final := x.final.cleared
        promised := x.promised ++ [config.agreedKey X a b] }
      (.commitKey X (config.agreedKey X a b).keyFingerprint ::ₘ sent) = openIds x sent := by
    unfold openIds
    rw [commitIds_cons, hlocalIds, localIds_cleared, add_zero, add_comm]
    rfl
  refine ⟨?_, ?_, ?_⟩
  · exact { h.forward with
      known := by
        intro m hm
        rcases Multiset.mem_cons.mp hm with rfl | hold
        · exact ⟨a, b, ha, hb, rfl⟩
        · exact h.forward.known m hold
      accepted := by
        rw [requestIds_cons]
        exact le_of_eq_of_le (congrArg (· + _) (zero_add _)) h.forward.accepted
      opened := hopen ▸ h.forward.opened
      data := DataKnown.of_zero rfl
      waiting := fun Z hZ => h.forward.waiting Z (hopen ▸ hZ)
      aborted := fun Z hZ hdrawn => hopen ▸
        h.forward.aborted Z ((Multiset.mem_cons.mp hZ).resolve_left (by rintro ⟨⟩)) hdrawn
      promised := by
        intro key hmem
        rcases List.mem_append.mp hmem with hold | hnew
        · exact h.forward.promised key hold
        · rw [List.mem_singleton.mp hnew]
          exact Or.inr ⟨a, b, Or.inl ⟨ha, hb⟩, rfl⟩ }
  · exact { h.backward with
      waiting := by
        intro Z hZ hmem
        have hwaits := h.backward.waiting Z hZ hmem
        rw [hlocal] at hwaits
        cases hwaits.2 }
  · obtain ⟨common, ahead, behind, hx, hy, hahead, hbehind, -⟩ := h.history
    have hsent := h.forward.commitIds_of_local (X := X)
      (hlocalIds ▸ Multiset.mem_singleton_self X) haccepted
    have hreceived : commitIds received = 0 := by
      refine h.backward.commitIds_eq_zero fun Z _ _ _ hremote => ?_
      rw [hlocal] at hremote
      cases hremote
    rw [hsent, Multiset.coe_eq_zero] at hahead
    rw [hreceived, Multiset.coe_eq_zero] at hbehind
    refine ⟨common, [X], [], ?_, ?_, ?_, ?_, Or.inr rfl⟩
    · rw [hahead, List.append_nil] at hx
      rw [← hx]
      simp [promisedIds, RekeyConfig.agreedKey]
    · rw [hy, hbehind]
    · rw [commitIds_cons, hsent]
      rfl
    · rw [hreceived]
      rfl

/-- **A `commitKey` finds the exchange it belongs to.** -/
theorem InStep.commitKey_expected {keyFingerprint : BitVec 64}
    (h : InStep config first x y sent received)
    (hmem : .commitKey X keyFingerprint ∈ received) :
    x.final.currentRekeyExchangeId = X ∧
      x.final.currentRekeyIsInitiatedByLocalClient = false ∧
      ∃ a b, (X, a) ∈ y.drawn ∧ (X, b) ∈ x.accepted ∧
        keyFingerprint = (config.agreedKey X a b).keyFingerprint ∧
        x.final.currentRekeyKey = some (config.agreedKey X a b).key ∧
        x.final.currentRekeyKeyId = keyFingerprint := by
  have hcommit : X ∈ commitIds received := mem_commitIds.mpr ⟨keyFingerprint, hmem⟩
  obtain ⟨hid, hlocal⟩ := h.backward.waits_of_commit hcommit
  obtain ⟨a, b, ha, hb, hfingerprint⟩ := h.backward.known _ hmem
  have hne : x.final.currentRekeyExchangeId ≠ 0 := by
    rw [hid]
    exact h.backward.ne_zero (List.mem_map_of_mem ha)
  have hdata := h.forward.data hne
  rw [if_neg (by simp [hlocal]), hid] at hdata
  obtain ⟨a', b', ha', hb', hkey, hkeyId⟩ := hdata
  have ha_eq : a' = a := List.inj_on_of_nodup_map h.backward.drawn_nodup ha' ha rfl
    |> Prod.mk.inj |>.2
  have hb_eq : b' = b := List.inj_on_of_nodup_map h.backward.acceptedIds_nodup hb' hb rfl
    |> Prod.mk.inj |>.2
  subst ha_eq hb_eq
  exact ⟨hid, hlocal, a', b', ha', hb', hfingerprint, hkey, hkeyId.trans hfingerprint.symm⟩

/-- **The client that has accepted stores the key.** -/
theorem InStep.store {keyFingerprint : BitVec 64}
    (h : InStep config first x y sent (.commitKey X keyFingerprint ::ₘ rest)) {a b : ℕ}
    (ha : (X, a) ∈ y.drawn) (hb : (X, b) ∈ x.accepted) :
    InStep config first
      { x with
        final := x.final.cleared
        promised := x.promised ++ [config.agreedKey X a b] } y sent rest := by
  have hreceived : commitIds (.commitKey X keyFingerprint ::ₘ rest) = {X} + commitIds rest :=
    commitIds_cons _ _
  obtain ⟨hid, hlocal, -⟩ := h.commitKey_expected (Multiset.mem_cons_self _ _)
  have hopenRest : openIds y (.commitKey X keyFingerprint ::ₘ rest) = {X} + openIds y rest := by
    unfold openIds
    rw [hreceived, add_assoc]
  have honce : X ∉ openIds y rest := by
    have hnodup := h.backward.openIds_nodup
    rw [hopenRest] at hnodup
    exact Multiset.disjoint_left.mp (Multiset.nodup_add.mp hnodup).2.2
      (Multiset.mem_singleton_self X)
  have hother : ∀ Z ∈ openIds y rest, Z ∉ x.acceptedIds := by
    intro Z hZ haccepted
    have hwaits := h.backward.waiting Z
      (hopenRest ▸ Multiset.mem_add.mpr (Or.inr hZ)) haccepted
    rw [hid] at hwaits
    exact honce (hwaits.1 ▸ hZ)
  have hopen : openIds
      { x with
        final := x.final.cleared
        promised := x.promised ++ [config.agreedKey X a b] } sent ≤ openIds x sent :=
    add_le_add_right (Multiset.zero_le _) _
  refine ⟨?_, ?_, ?_⟩
  · exact { h.forward with
      opened := le_trans hopen h.forward.opened
      data := DataKnown.of_zero rfl
      waiting := fun Z hZ => h.forward.waiting Z (Multiset.mem_of_le hopen hZ)
      aborted := fun Z hZ hdrawn hmem =>
        h.forward.aborted Z hZ hdrawn (Multiset.mem_of_le hopen hmem)
      promised := by
        intro key hmem
        rcases List.mem_append.mp hmem with hold | hnew
        · exact h.forward.promised key hold
        · rw [List.mem_singleton.mp hnew]
          exact Or.inr ⟨a, b, Or.inr ⟨ha, hb⟩, rfl⟩ }
  · exact { h.backward with
      known := fun m hm => h.backward.known m (Multiset.mem_cons_of_mem hm)
      accepted := le_trans (add_le_add_left requestIds_le_cons _) h.backward.accepted
      opened := le_trans (add_le_add_left commitIds_le_cons _) h.backward.opened
      waiting := fun Z hZ haccepted => absurd haccepted (hother Z hZ)
      aborted := fun Z hZ hdrawn hmem => h.backward.aborted Z (Multiset.mem_cons_of_mem hZ)
        hdrawn (hopenRest ▸ Multiset.mem_add.mpr (Or.inr hmem)) }
  · obtain ⟨common, ahead, behind, hx, hy, hahead, hbehind, hempty⟩ := h.history
    have hrest : commitIds rest = 0 := by
      refine Multiset.eq_zero_of_forall_notMem fun Z hZ => ?_
      have haccepted := h.backward.accepted_of_commit
        (hreceived ▸ Multiset.mem_add.mpr (Or.inr hZ))
      exact hother Z (Multiset.mem_add.mpr (Or.inl hZ)) haccepted
    rw [hreceived, hrest, add_zero, ← Multiset.coe_singleton, Multiset.coe_eq_coe,
      List.perm_singleton] at hbehind
    subst hbehind
    have hnil : ahead = [] := hempty.resolve_right (List.cons_ne_nil _ _)
    subst hnil
    refine ⟨common ++ [X], [], [], ?_, ?_, hahead, ?_, Or.inl rfl⟩
    · rw [List.append_nil] at hx
      rw [List.append_nil, ← hx]
      simp [promisedIds, RekeyConfig.agreedKey]
    · rw [hy, List.append_nil]
    · rw [hrest]
      rfl

/-! ### Keys of one exchange -/

theorem Agreed.mem_drawnIds {key : ExchangedKey} (h : Agreed config x y key) :
    key.exchangeId ∈ x.drawnIds ∨ key.exchangeId ∈ y.drawnIds := by
  obtain ⟨a, b, hdrawn, -⟩ := h
  exact hdrawn.imp (fun h => List.mem_map_of_mem h.1) fun h => List.mem_map_of_mem h.1

theorem InStep.agreed_unique (h : InStep config first x y sent received)
    {key key' : ExchangedKey} (hkey : Agreed config x y key) (hkey' : Agreed config x y key')
    (hid : key.exchangeId = key'.exchangeId) : key = key' := by
  obtain ⟨a, b, hdrawn, heq⟩ := hkey
  obtain ⟨a', b', hdrawn', heq'⟩ := hkey'
  rw [heq, heq', ← hid]
  rw [← hid] at hdrawn'
  have hdrawnX := fun {a a' : ℕ} (ha : (key.exchangeId, a) ∈ x.drawn)
    (ha' : (key.exchangeId, a') ∈ x.drawn) =>
      (Prod.mk.inj (List.inj_on_of_nodup_map h.forward.drawn_nodup ha ha' rfl)).2
  have hdrawnY := fun {a a' : ℕ} (ha : (key.exchangeId, a) ∈ y.drawn)
    (ha' : (key.exchangeId, a') ∈ y.drawn) =>
      (Prod.mk.inj (List.inj_on_of_nodup_map h.backward.drawn_nodup ha ha' rfl)).2
  have hacceptedX := fun {b b' : ℕ} (hb : (key.exchangeId, b) ∈ x.accepted)
    (hb' : (key.exchangeId, b') ∈ x.accepted) =>
      (Prod.mk.inj (List.inj_on_of_nodup_map h.backward.acceptedIds_nodup hb hb' rfl)).2
  have hacceptedY := fun {b b' : ℕ} (hb : (key.exchangeId, b) ∈ y.accepted)
    (hb' : (key.exchangeId, b') ∈ y.accepted) =>
      (Prod.mk.inj (List.inj_on_of_nodup_map h.forward.acceptedIds_nodup hb hb' rfl)).2
  rcases hdrawn with ⟨ha, hb⟩ | ⟨ha, hb⟩ <;> rcases hdrawn' with ⟨ha', hb'⟩ | ⟨ha', hb'⟩
  · rw [hdrawnX ha ha', hacceptedY hb hb']
  · exact absurd (List.mem_map.mpr ⟨_, ha', rfl⟩)
      (h.forward.disjoint (List.mem_map.mpr ⟨_, ha, rfl⟩))
  · exact absurd (List.mem_map.mpr ⟨_, ha, rfl⟩)
      (h.forward.disjoint (List.mem_map.mpr ⟨_, ha', rfl⟩))
  · rw [hdrawnY ha ha', hacceptedX hb hb']

/-- **Keys of one exchange are equal.** -/
theorem InStep.key_unique (h : InStep config first x y sent received)
    (hfirst : first.exchangeId = 0) {key key' : ExchangedKey} (hkey : key ∈ x.promised)
    (hkey' : key' ∈ y.promised) (hid : key.exchangeId = key'.exchangeId) : key = key' := by
  have hne : ∀ {other : ExchangedKey}, Agreed config x y other → other.exchangeId ≠ 0 :=
    fun hother => hother.mem_drawnIds.elim h.forward.ne_zero h.backward.ne_zero
  rcases h.forward.promised key hkey with rfl | hagreed <;>
    rcases h.backward.promised key' hkey' with rfl | hagreed'
  · rfl
  · exact absurd (hid.symm.trans hfirst) (hne hagreed'.symm)
  · exact absurd (hid.trans hfirst) (hne hagreed)
  · exact h.agreed_unique hagreed hagreed'.symm hid

/-- Keys at one place of both lists are equal. -/
theorem InStep.promised_eq (h : InStep config first x y sent received)
    (hfirst : first.exchangeId = 0) {i : ℕ} {key key' : ExchangedKey}
    (hkey : x.promised[i]? = some key) (hkey' : y.promised[i]? = some key') : key = key' := by
  refine h.key_unique hfirst (List.mem_of_getElem? hkey) (List.mem_of_getElem? hkey') ?_
  obtain ⟨common, ahead, behind, hx, hy, -, -, hempty⟩ := h.history
  have hxi : (common ++ ahead)[i]? = some key.exchangeId := by
    rw [← hx, promisedIds, List.getElem?_map, hkey, Option.map_some]
  have hyi : (common ++ behind)[i]? = some key'.exchangeId := by
    rw [← hy, promisedIds, List.getElem?_map, hkey', Option.map_some]
  have hlt : i < common.length := by
    have hxlt := (List.getElem?_eq_some_iff.mp hxi).1
    have hylt := (List.getElem?_eq_some_iff.mp hyi).1
    rw [List.length_append] at hxlt hylt
    rcases hempty with rfl | rfl
    · simpa using hxlt
    · simpa using hylt
  rw [List.getElem?_append_left hlt] at hxi hyi
  exact Option.some.inj (hxi.symm.trans hyi)

end Telegraph.Secret
