import Telegraph.MtProto.SessionRun

/-!
# The Order of Message Ids

The server wants message ids to grow with the sequence numbers, and the id of a container
to be above those of the messages in it. Ids come from the clock, which may step back. The
loop over the messages of a transaction watches for that and resets the session; the ids of
containers and of time-fix pings are drawn without looking. A clock that reads the same
for three draws is behind as well, since the second id is already above the reading.

## Main results

* `Ordered.draw`: a draw that is not behind keeps the draws of a session in order.
* `batch_ordered`, `encryptedPayloads_ordered`: a transaction that is not given up.
* `messages_ordered`: **the messages handed to the transport are in order** in every run
  whose draws without a flag are not behind the last id.
* `messages_ordered_sameReading`: a clock that stands still for three draws is enough to
  hand out the same id twice.
-/

namespace Telegraph.MtProto

/-! ### What the server wants -/

/-- The ids in `is` that were drawn for their message. -/
def freshIds (is : List MessageIdentity) : List (BitVec 64) :=
  (is.filter MessageIdentity.fresh).map MessageIdentity.messageId

/-- A smaller id has a smaller sequence number, or the same even one. -/
def InSequence (id₁ id₂ : BitVec 64) (seqNo₁ seqNo₂ : BitVec 32) : Prop :=
  id₁.toInt < id₂.toInt →
    seqNo₁.toInt ≤ seqNo₂.toInt ∧ ¬(seqNo₁ = seqNo₂ ∧ seqNo₁.toInt % 2 = 1)

/-- Every id and sequence number in the payloads `ts`. -/
def handedIdentities (ts : List TransportTransaction) : List MessageIdentity :=
  ts.flatMap fun t => t.payload.identities

/-- The messages in the payloads `ts` are in order. -/
structure OrderedMessages (ts : List TransportTransaction) : Prop where
  distinct : (freshIds (handedIdentities ts)).Nodup
  container : ∀ t ∈ ts, ∀ c ∈ t.payload.ownIdentity, ∀ m ∈ t.payload.messages,
    m.messageId.toInt < c.messageId.toInt
  inSequence : ∀ i ∈ handedIdentities ts, ∀ j ∈ handedIdentities ts,
    InSequence i.messageId j.messageId i.seqNo j.seqNo

/-! ### Draws in order -/

/-- The draw does not overflow, and if it was made without a flag, the clock was not behind
the last id. -/
structure Draw.InOrder (d : Draw) : Prop extends d.NoOverflow where
  forward : d.checked = false → d.lastClientMessageId.toInt ≤ d.reading.toInt

/-- The draws of a session are in order. -/
structure SessionInfo.Ordered (s : SessionInfo) : Prop where
  inSequence : ∀ d ∈ s.draws, ∀ e ∈ s.draws,
    InSequence d.messageId e.messageId d.seqNo e.seqNo
  last : ∀ d ∈ s.draws, d.messageId.toInt ≤ s.lastClientMessageId.toInt
  seqNo : ∀ d ∈ s.draws, d.seqNo.toInt ≤ s.seqNo.toInt
  even : s.seqNo.toInt % 2 = 0

/-- The id and the sequence number were drawn in the session. -/
def SessionInfo.Drew (s : SessionInfo) (messageId : BitVec 64) (seqNo : BitVec 32) : Prop :=
  ∃ d ∈ s.draws, d.messageId = messageId ∧ d.seqNo = seqNo

/-- The session `s'` is `s` after some more draws in order. -/
structure SessionInfo.Extends (s s' : SessionInfo) : Prop where
  ordered : s'.Ordered
  last : s.lastClientMessageId.toInt ≤ s'.lastClientMessageId.toInt
  draws : s.draws ⊆ s'.draws

section Draws

variable {s s' s'' : SessionInfo} {globalTime : ℕ → BitVec 64}

theorem SessionInfo.Extends.refl (hs : s.Ordered) : s.Extends s :=
  ⟨hs, le_rfl, fun _ h => h⟩

theorem SessionInfo.Extends.trans (h : s.Extends s') (h' : s'.Extends s'') : s.Extends s'' :=
  ⟨h'.ordered, h.last.trans h'.last, fun _ hd => h'.draws (h.draws hd)⟩

theorem SessionInfo.Drew.mono {messageId : BitVec 64} {seqNo : BitVec 32}
    (h : s.Drew messageId seqNo) (hs : s.Extends s') : s'.Drew messageId seqNo := by
  obtain ⟨d, hd, hid⟩ := h
  exact ⟨d, hs.draws hd, hid⟩

theorem SessionInfo.Drew.le_last {messageId : BitVec 64} {seqNo : BitVec 32}
    (h : s.Drew messageId seqNo) (hs : s.Ordered) :
    messageId.toInt ≤ s.lastClientMessageId.toInt := by
  obtain ⟨d, hd, rfl, -⟩ := h
  exact hs.last d hd

theorem SessionInfo.Ordered.inSequence_of_drew (hs : s.Ordered) {id₁ id₂ : BitVec 64}
    {seqNo₁ seqNo₂ : BitVec 32} (h₁ : s.Drew id₁ seqNo₁) (h₂ : s.Drew id₂ seqNo₂) :
    InSequence id₁ id₂ seqNo₁ seqNo₂ := by
  obtain ⟨d, hd, rfl, rfl⟩ := h₁
  obtain ⟨e, he, rfl, rfl⟩ := h₂
  exact hs.inSequence d hd e he

/-- The sequence number a draw takes, and the one it leaves: it goes up by two for a
message with content, which gets the odd number between. -/
theorem toInt_takeSeqNo (messageIsMeaningful : Bool) (heven : s.seqNo.toInt % 2 = 0)
    (hno : messageIsMeaningful = true → s.seqNo.toInt + 2 < 2 ^ 31) :
    s.seqNo.toInt ≤ (s.takeSeqNo messageIsMeaningful).1.toInt ∧
    (s.takeSeqNo messageIsMeaningful).1.toInt ≤
      (s.takeSeqNo messageIsMeaningful).2.seqNo.toInt ∧
    (s.takeSeqNo messageIsMeaningful).2.seqNo.toInt % 2 = 0 := by
  have hle := BitVec.le_toInt s.seqNo
  unfold SessionInfo.takeSeqNo
  split
  case isTrue hm =>
    have hlt := hno hm
    have h1 : (s.seqNo + 1).toInt = s.seqNo.toInt + 1 := by
      rw [BitVec.toInt_add, show (1 : BitVec 32).toInt = 1 by decide]
      apply Int.bmod_eq_of_le <;> omega
    have h2 : (s.seqNo + 2).toInt = s.seqNo.toInt + 2 := by
      rw [BitVec.toInt_add, show (2 : BitVec 32).toInt = 2 by decide]
      apply Int.bmod_eq_of_le <;> omega
    dsimp only
    omega
  case isFalse => exact ⟨le_rfl, le_rfl, heven⟩

/-- **A draw that is not behind keeps the draws in order**, and its id is ahead of all. -/
theorem SessionInfo.Ordered.draw (hs : s.Ordered) {checked messageIsMeaningful : Bool}
    (hno : (s.draw globalTime checked messageIsMeaningful).1.NoOverflow)
    (hforward : s.lastClientMessageId.toInt ≤ (globalTime s.readings).toInt) :
    s.Extends (s.draw globalTime checked messageIsMeaningful).2 ∧
      s.lastClientMessageId.toInt <
        (s.draw globalTime checked messageIsMeaningful).1.messageId.toInt := by
  have hlt := toInt_draw hno hforward
  obtain ⟨hle, hleave, heven⟩ :=
    toInt_takeSeqNo messageIsMeaningful hs.even hno.seqNo
  have hseq : (s.draw globalTime checked messageIsMeaningful).1.seqNo =
      (s.takeSeqNo messageIsMeaningful).1 := by cases messageIsMeaningful <;> rfl
  have hseqNo : (s.draw globalTime checked messageIsMeaningful).2.seqNo =
      (s.takeSeqNo messageIsMeaningful).2.seqNo := by cases messageIsMeaningful <;> rfl
  generalize hd : (s.draw globalTime checked messageIsMeaningful).1 = d at *
  have hmem : ∀ e ∈ (s.draw globalTime checked messageIsMeaningful).2.draws,
      e ∈ s.draws ∨ e = d := by
    intro e he
    rw [draw_draws, hd, List.mem_append, List.mem_singleton] at he
    exact he
  refine ⟨⟨⟨fun e he f hf => ?_, fun e he => ?_, fun e he => ?_, ?_⟩, ?_, ?_⟩, hlt⟩
  · rcases hmem e he with he | rfl
    · rcases hmem f hf with hf | rfl
      · exact hs.inSequence e he f hf
      · -- an old draw against the new one
        intro _
        have hseqe := hs.seqNo e he
        rw [hseq]
        refine ⟨by omega, fun ⟨heq, hodd⟩ => ?_⟩
        rw [heq] at hodd hseqe
        have := hs.even
        omega
    · rcases hmem f hf with hf | rfl
      · intro h
        have := hs.last f hf
        omega
      · exact fun h => absurd h (lt_irrefl _)
  · rw [draw_session_lastClientMessageId, hd]
    rcases hmem e he with he | rfl
    · have := hs.last e he
      omega
    · exact le_rfl
  · rw [hseqNo]
    rcases hmem e he with he | rfl
    · have := hs.seqNo e he
      omega
    · rw [hseq]
      exact hleave
  · rw [hseqNo]
    exact heven
  · rw [draw_session_lastClientMessageId, hd]
    exact hlt.le
  · rw [draw_draws]
    exact List.subset_append_left _ _

/-- The id drawn is among the draws. -/
theorem drew_draw {checked messageIsMeaningful : Bool} :
    (s.draw globalTime checked messageIsMeaningful).2.Drew
      (s.draw globalTime checked messageIsMeaningful).1.messageId
      (s.draw globalTime checked messageIsMeaningful).1.seqNo :=
  ⟨_, by rw [draw_draws]; simp, rfl, rfl⟩

end Draws

/-! ### The messages of a transaction -/

@[simp] theorem freshIds_append (is js : List MessageIdentity) :
    freshIds (is ++ js) = freshIds is ++ freshIds js := by
  simp [freshIds]

theorem mem_freshIds {is : List MessageIdentity} {x : BitVec 64} :
    x ∈ freshIds is ↔ ∃ i ∈ is, i.fresh = true ∧ i.messageId = x := by
  simp [freshIds, and_assoc]

section Batch

variable {globalTime : ℕ → BitVec 64} {ctx : TransactionContext} {s₀ : SessionInfo}

/-- The identities of prepared messages. -/
def preparedIdentities (ms : List PreparedMessage) : List MessageIdentity :=
  ms.map PreparedMessage.toMessageIdentity

/-- The identities `is` were drawn by `s`; the fresh ones after `s₀`, each for one message. -/
structure DrawnSince (s₀ s : SessionInfo) (is : List MessageIdentity) : Prop where
  drew : ∀ i ∈ is, s.Drew i.messageId i.seqNo
  fresh : ∀ x ∈ freshIds is, s₀.lastClientMessageId.toInt < x.toInt
  nodup : (freshIds is).Nodup

theorem DrawnSince.perm {s : SessionInfo} {is js : List MessageIdentity}
    (h : DrawnSince s₀ s is) (hperm : is.Perm js) : DrawnSince s₀ s js := by
  have hfresh : (freshIds is).Perm (freshIds js) := (hperm.filter _).map _
  exact ⟨fun i hi => h.drew i (hperm.mem_iff.mpr hi),
    fun x hx => h.fresh x (hfresh.mem_iff.mpr hx), hfresh.nodup_iff.mp h.nodup⟩

theorem DrawnSince.nil {s : SessionInfo} : DrawnSince s₀ s [] :=
  ⟨by simp, by simp [freshIds], by simp [freshIds]⟩

theorem DrawnSince.mono {s s' : SessionInfo} {is : List MessageIdentity}
    (h : DrawnSince s₀ s is) (hs : s.Extends s') : DrawnSince s₀ s' is :=
  ⟨fun i hi => (h.drew i hi).mono hs, h.fresh, h.nodup⟩

theorem DrawnSince.sublist {s : SessionInfo} {is js : List MessageIdentity}
    (h : DrawnSince s₀ s js) (hsub : is.Sublist js) : DrawnSince s₀ s is := by
  have hfresh : (freshIds is).Sublist (freshIds js) := (hsub.filter _).map _
  exact ⟨fun i hi => h.drew i (hsub.subset hi), fun x hx => h.fresh x (hfresh.subset hx),
    hfresh.nodup h.nodup⟩

/-- An id drawn afterwards is new. -/
theorem DrawnSince.append_draw {s s' : SessionInfo} {is : List MessageIdentity}
    (h : DrawnSince s₀ s is) (hs : s.Ordered) (h₀ : s₀.Extends s) (hext : s.Extends s')
    {i : MessageIdentity} (hi : s'.Drew i.messageId i.seqNo)
    (hnew : s.lastClientMessageId.toInt < i.messageId.toInt) :
    DrawnSince s₀ s' (is ++ [i]) := by
  have hlast : s₀.lastClientMessageId.toInt < i.messageId.toInt :=
    lt_of_le_of_lt h₀.last hnew
  refine ⟨fun j hj => ?_, fun x hx => ?_, ?_⟩
  · rw [List.mem_append, List.mem_singleton] at hj
    rcases hj with hj | rfl
    · exact (h.drew j hj).mono hext
    · exact hi
  · rw [freshIds_append, List.mem_append] at hx
    rcases hx with hx | hx
    · exact h.fresh x hx
    · obtain ⟨j, hj, -, rfl⟩ := mem_freshIds.mp hx
      rwa [List.mem_singleton.mp hj]
  · rw [freshIds_append, List.nodup_append]
    refine ⟨h.nodup, ?_, ?_⟩
    · unfold freshIds
      exact (List.filter_sublist.map _).nodup (by simp)
    · rintro x hx y hy rfl
      obtain ⟨j, hj, -, rfl⟩ := mem_freshIds.mp hx
      obtain ⟨k, hk, -, hjk⟩ := mem_freshIds.mp hy
      rw [List.mem_singleton.mp hk] at hjk
      have := (h.drew j hj).le_last hs
      rw [← hjk] at this
      omega

/-- A message that brings along an id of the session adds no fresh id. -/
theorem DrawnSince.append_resent {s : SessionInfo} {is : List MessageIdentity}
    (h : DrawnSince s₀ s is) {i : MessageIdentity} (hi : s.Drew i.messageId i.seqNo)
    (hfresh : i.fresh = false) : DrawnSince s₀ s (is ++ [i]) := by
  have hnone : freshIds [i] = [] := by simp [freshIds, hfresh]
  refine ⟨fun j hj => ?_, ?_, ?_⟩
  · rw [List.mem_append, List.mem_singleton] at hj
    rcases hj with hj | rfl
    · exact h.drew j hj
    · exact hi
  · rw [freshIds_append, hnone, List.append_nil]
    exact h.fresh
  · rw [freshIds_append, hnone, List.append_nil]
    exact h.nodup

/-- Every message of the transaction that brings along an id brings one of the session. -/
def ResentDrawn (ctx : TransactionContext) (s : SessionInfo) : Prop :=
  ∀ m ∈ ctx.outgoing s, m.messageId ≠ 0 → s.Drew m.messageId m.messageSeqNo

/-- The loop over the messages has drawn in order since `s₀`. -/
structure PreparedInOrder (s₀ s : SessionInfo) (prepared : List PreparedMessage) : Prop where
  ext : s₀.Extends s
  drawn : DrawnSince s₀ s (preparedIdentities prepared)

/-- The session a transaction draws on is the old one, whether the salt was looked up
first or not. -/
theorem extends_messageSalt (hs₀ : s₀.Ordered) :
    s₀.Extends (ctx.messageSalt globalTime s₀).2 := by
  unfold TransactionContext.messageSalt
  split
  · exact .refl hs₀
  · exact ⟨⟨hs₀.inSequence, hs₀.last, hs₀.seqNo, hs₀.even⟩, le_rfl, fun _ h => h⟩

/-- A message after which monotonity is not violated is prepared. -/
theorem prepareMessage_of_not_violated {messageSalt : BitVec 64} {b : Batch}
    {m : OutgoingMessage}
    (h : (b.prepareMessage globalTime ctx messageSalt m).monotonityViolated = false) :
    b.monotonityViolated = false ∧ (m.identify globalTime b.session).2.1 = false ∧
      preparedIdentities (b.prepareMessage globalTime ctx messageSalt m).prepared =
        preparedIdentities b.prepared ++ [(m.identify globalTime b.session).1] := by
  unfold Batch.prepareMessage at h ⊢
  dsimp only at h ⊢
  split at h
  case isTrue hcond =>
    rw [if_pos hcond]
    obtain ⟨hb, hm⟩ := Bool.or_eq_false_iff.mp h
    exact ⟨hb, hm, by simp [preparedIdentities]⟩
  case isFalse => simp at h

/-- One message of the loop draws in order, if monotonity is not violated after it. -/
theorem prepareMessage_inOrder {messageSalt : BitVec 64} {b : Batch} {m : OutgoingMessage}
    (hb : PreparedInOrder s₀ b.session b.prepared)
    (hresent : m.messageId ≠ 0 → s₀.Drew m.messageId m.messageSeqNo)
    (hviolated : (m.identify globalTime b.session).2.1 = false)
    (hdraws : ∀ d ∈ (m.identify globalTime b.session).2.2.draws, d.NoOverflow)
    (hprepared : preparedIdentities
        (b.prepareMessage globalTime ctx messageSalt m).prepared =
      preparedIdentities b.prepared ++ [(m.identify globalTime b.session).1]) :
    PreparedInOrder s₀ (m.identify globalTime b.session).2.2
      (b.prepareMessage globalTime ctx messageSalt m).prepared := by
  unfold OutgoingMessage.identify at *
  split at hviolated
  case isTrue hm =>
    simp only [if_pos hm] at *
    rw [draw_monotonityViolated, BitVec.slt, decide_eq_false_iff_not, not_lt] at hviolated
    have hno : (b.session.draw globalTime true m.requiresConfirmation).1.NoOverflow :=
      hdraws _ (by simp)
    obtain ⟨hext, hnew⟩ := hb.ext.ordered.draw hno hviolated
    refine ⟨hb.ext.trans hext, ?_⟩
    rw [hprepared]
    exact hb.drawn.append_draw hb.ext.ordered hb.ext hext drew_draw hnew
  case isFalse hm =>
    simp only [if_neg hm] at *
    refine ⟨hb.ext, ?_⟩
    rw [hprepared]
    exact hb.drawn.append_resent ((hresent hm).mono hb.ext) rfl

/-- Draws are never taken back. -/
theorem draws_subset_identify (m : OutgoingMessage) (s : SessionInfo) :
    s.draws ⊆ (m.identify globalTime s).2.2.draws := by
  unfold OutgoingMessage.identify
  split
  · simp only [draw_draws]
    exact List.subset_append_left _ _
  · exact fun _ h => h

/-- **The loop over the messages draws in order, or monotonity is violated.** -/
theorem prepare_inOrder (hs₀ : s₀.Ordered) (hresent : ResentDrawn ctx s₀)
    (hviolated : (ctx.prepare globalTime s₀).monotonityViolated = false)
    (hdraws : ∀ d ∈ (ctx.prepare globalTime s₀).session.draws, d.NoOverflow) :
    PreparedInOrder s₀ (ctx.prepare globalTime s₀).session
      (ctx.prepare globalTime s₀).prepared := by
  have hP : (ctx.prepare globalTime s₀).monotonityViolated = false →
      (∀ d ∈ (ctx.prepare globalTime s₀).session.draws, d.NoOverflow) →
      PreparedInOrder s₀ (ctx.prepare globalTime s₀).session
        (ctx.prepare globalTime s₀).prepared := by
    refine prepare_induction (P := fun b => b.monotonityViolated = false →
      (∀ d ∈ b.session.draws, d.NoOverflow) → PreparedInOrder s₀ b.session b.prepared)
      ctx s₀ ?_ ?_ ?_
    · intro _ _
      exact ⟨extends_messageSalt hs₀, .nil⟩
    · intro b hb hv hd
      exact hb hv hd
    · intro messageSalt b m hm hb hv hd
      obtain ⟨hbv, hmv, hprepared⟩ := prepareMessage_of_not_violated hv
      rw [prepareMessage_session] at hd ⊢
      have hbd := hb hbv fun d hdm => hd d (draws_subset_identify m b.session hdm)
      exact prepareMessage_inOrder hbd (hresent m hm) hmv hd hprepared
  exact hP hviolated hdraws

end Batch

/-! ### The payloads of a transaction -/

section Payloads

variable {globalTime : ℕ → BitVec 64} {s₀ s : SessionInfo} {hasKey : Bool}

/-- Every id and sequence number in the payloads. -/
def payloadIdentities (ps : List Payload) : List MessageIdentity :=
  ps.flatMap Payload.identities

/-- The id of a container is above those of its messages. -/
def Payload.Encloses (p : Payload) : Prop :=
  ∀ c ∈ p.ownIdentity, ∀ m ∈ p.messages, m.messageId.toInt < c.messageId.toInt

/-- Draws are never taken back. -/
theorem draws_subset_encryptedPayload (ms : List PreparedMessage) :
    s.draws ⊆ (encryptedPayload globalTime hasKey ms s).2.draws := by
  unfold encryptedPayload
  split
  · exact fun _ h => h
  · exact fun _ h => h
  · unfold dataForEncryptedContainer
    dsimp only
    split
    · rw [draw_draws]
      exact List.subset_append_left _ _
    · rw [SessionInfo.addContainerMessageIdMapping, draw_draws]
      exact List.subset_append_left _ _

/-- Draws are never taken back. -/
theorem draws_subset_encryptedPayloads (groups : List (List PreparedMessage)) :
    s.draws ⊆ (encryptedPayloads globalTime hasKey groups s).2.draws :=
  encryptedPayloads_induction (P := fun s' => s.draws ⊆ s'.draws)
    (fun ms _ hs _ hd => draws_subset_encryptedPayload ms (hs hd)) groups fun _ hd => hd

/-- The session after a container has been made. -/
theorem dataForEncryptedContainer_ordered (hs : s.Ordered) {ms : List PreparedMessage}
    (hdraws : ∀ d ∈ (dataForEncryptedContainer globalTime hasKey ms s).2.draws, d.InOrder) :
    s.Extends (dataForEncryptedContainer globalTime hasKey ms s).2 ∧
    ∀ p ∈ (dataForEncryptedContainer globalTime hasKey ms s).1, ∃ c, p.ownIdentity = some c ∧
      s.lastClientMessageId.toInt < c.messageId.toInt ∧
      (dataForEncryptedContainer globalTime hasKey ms s).2.Drew c.messageId c.seqNo := by
  have hmem : (s.draw globalTime false false).1 ∈
      (dataForEncryptedContainer globalTime hasKey ms s).2.draws := by
    unfold dataForEncryptedContainer
    dsimp only
    split <;> simp [SessionInfo.addContainerMessageIdMapping]
  have hinOrder := hdraws _ hmem
  obtain ⟨hext, hnew⟩ := hs.draw hinOrder.toNoOverflow (hinOrder.forward rfl)
  constructor
  · unfold dataForEncryptedContainer
    dsimp only
    split
    · exact hext
    · exact hext.trans ⟨⟨hext.ordered.inSequence, hext.ordered.last, hext.ordered.seqNo,
        hext.ordered.even⟩, le_rfl, fun _ h => h⟩
  · intro p hp
    have hdrew : (dataForEncryptedContainer globalTime hasKey ms s).2.Drew
        (s.draw globalTime false false).1.messageId
        (s.draw globalTime false false).1.seqNo := ⟨_, hmem, rfl, rfl⟩
    unfold dataForEncryptedContainer at hp
    dsimp only at hp
    split at hp
    · obtain rfl := Option.some.inj hp
      exact ⟨_, rfl, hnew, hdrew⟩
    · simp at hp

/-- What is true of some identities when a payload has been made: it adds its messages, and
its own id if it has one. -/
theorem DrawnSince.encryptedPayload {is js : List MessageIdentity} {ms : List PreparedMessage}
    (h₀ : s₀.Extends s) (h : DrawnSince s₀ s (is ++ (preparedIdentities ms ++ js)))
    (hdraws : ∀ d ∈ (encryptedPayload globalTime hasKey ms s).2.draws, d.InOrder) :
    s₀.Extends (encryptedPayload globalTime hasKey ms s).2 ∧
    DrawnSince s₀ (encryptedPayload globalTime hasKey ms s).2
      (is ++ payloadIdentities (encryptedPayload globalTime hasKey ms s).1.toList ++ js) ∧
    ∀ p ∈ (encryptedPayload globalTime hasKey ms s).1, p.Encloses := by
  have hnone : DrawnSince s₀ s (is ++ js) :=
    h.sublist (by simp)
  rcases ms with _ | ⟨m, _ | ⟨m', rest⟩⟩
  · exact ⟨h₀, by simpa [MtProto.encryptedPayload, payloadIdentities] using hnone,
      by simp [MtProto.encryptedPayload]⟩
  · refine ⟨h₀, ?_, fun p hp => ?_⟩
    · by_cases hkey : hasKey
      · simpa [MtProto.encryptedPayload, payloadIdentities, hkey, Payload.identities,
          Payload.messages, Payload.ownIdentity, preparedIdentities] using h
      · simpa [MtProto.encryptedPayload, payloadIdentities, hkey] using hnone
    · unfold MtProto.encryptedPayload at hp
      dsimp only at hp
      split at hp
      · obtain rfl := Option.some.inj hp
        simp [Payload.Encloses, Payload.ownIdentity]
      · simp at hp
  · obtain ⟨hext, hown⟩ := dataForEncryptedContainer_ordered h₀.ordered hdraws
    have hmessages : ∀ p ∈ (dataForEncryptedContainer globalTime hasKey
        (m :: m' :: rest) s).1, p.messages = m :: m' :: rest := by
      intro p hp
      have hpayload : p ∈ (MtProto.encryptedPayload globalTime hasKey (m :: m' :: rest) s).1 := hp
      exact encryptedPayload_messages hpayload
    change s₀.Extends (dataForEncryptedContainer globalTime hasKey _ s).2 ∧
      DrawnSince s₀ (dataForEncryptedContainer globalTime hasKey _ s).2
        (is ++ payloadIdentities
          (dataForEncryptedContainer globalTime hasKey _ s).1.toList ++ js) ∧
      ∀ p ∈ (dataForEncryptedContainer globalTime hasKey _ s).1, p.Encloses
    generalize dataForEncryptedContainer globalTime hasKey (m :: m' :: rest) s = r at *
    obtain ⟨payload, s'⟩ := r
    refine ⟨h₀.trans hext, ?_, fun p hp c hc x hx => ?_⟩
    · cases payload with
      | none => simpa [payloadIdentities] using hnone.mono hext
      | some p =>
          obtain ⟨c, hc, hnew, hdrew⟩ := hown p rfl
          have hall := h.append_draw h₀.ordered h₀ hext hdrew hnew
          refine hall.perm ?_
          simp only [payloadIdentities, Payload.identities, Option.toList_some,
            List.flatMap_singleton, hc, hmessages p rfl, preparedIdentities, List.append_assoc]
          exact (List.perm_append_comm.append_left _).append_left is
    · obtain ⟨c', hc', hnew, -⟩ := hown p hp
      obtain rfl : c' = c := Option.some.inj (hc'.symm.trans hc)
      have hdrew := h.drew x.toMessageIdentity (by
        rw [hmessages p hp] at hx
        simp only [List.mem_append, preparedIdentities]
        exact .inr (.inl (List.mem_map_of_mem hx)))
      have := hdrew.le_last h₀.ordered
      omega

/-- **The payloads of a transaction are in order**: they carry the messages they are made
of, and containers get ids above all ids before. -/
theorem encryptedPayloads_ordered {is : List MessageIdentity} (h₀ : s₀.Extends s)
    (groups : List (List PreparedMessage))
    (h : DrawnSince s₀ s (is ++ preparedIdentities groups.flatten))
    (hdraws : ∀ d ∈ (encryptedPayloads globalTime hasKey groups s).2.draws, d.InOrder) :
    s₀.Extends (encryptedPayloads globalTime hasKey groups s).2 ∧
    DrawnSince s₀ (encryptedPayloads globalTime hasKey groups s).2
      (is ++ payloadIdentities (encryptedPayloads globalTime hasKey groups s).1) ∧
    ∀ p ∈ (encryptedPayloads globalTime hasKey groups s).1, p.Encloses := by
  induction groups generalizing s is with
  | nil => exact ⟨h₀, by simpa [encryptedPayloads, payloadIdentities, preparedIdentities]
      using h, by simp [encryptedPayloads]⟩
  | cons ms rest ih =>
      rw [List.flatten_cons, preparedIdentities, List.map_append] at h
      have hfirst : ∀ d ∈ (encryptedPayload globalTime hasKey ms s).2.draws, d.InOrder :=
        fun d hd => hdraws d (draws_subset_encryptedPayloads rest hd)
      obtain ⟨hext, hdrawn, hencloses⟩ := h.encryptedPayload h₀ hfirst
      obtain ⟨hext', hdrawn', hencloses'⟩ := ih hext hdrawn hdraws
      refine ⟨hext', ?_, fun p hp => ?_⟩
      · simpa [encryptedPayloads, payloadIdentities] using hdrawn'
      · simp only [encryptedPayloads, List.mem_append, Option.mem_toList] at hp
        rcases hp with hp | hp
        · exact hencloses p hp
        · exact hencloses' p hp

end Payloads

/-! ### One transaction -/

section Step

variable {globalTime : ℕ → BitVec 64} {ctx : TransactionContext} {s s' : SessionInfo}
  {ts ts' : List TransportTransaction}

/-- The payloads for the messages prepared in order. -/
theorem payloads_inOrder {s₀ : SessionInfo} {b : Batch}
    (hb : PreparedInOrder s₀ b.session b.prepared)
    (hdraws : ∀ d ∈ (ctx.payloads globalTime b).2.draws, d.InOrder) :
    s₀.Extends (ctx.payloads globalTime b).2 ∧
    DrawnSince s₀ (ctx.payloads globalTime b).2
      (payloadIdentities (ctx.payloads globalTime b).1) ∧
    ∀ p ∈ (ctx.payloads globalTime b).1, p.Encloses := by
  have hperm := orderMessages_perm ctx.forceConfirmations b.prepared
  have hdrawn : DrawnSince s₀ b.session
      (preparedIdentities (orderMessages ctx.forceConfirmations b.prepared)) :=
    hb.drawn.perm (hperm.symm.map _)
  unfold TransactionContext.payloads at *
  dsimp only at *
  split
  case isTrue hmode =>
    refine ⟨hb.ext, ?_, fun p hp => ?_⟩
    · have hids : payloadIdentities ((orderMessages ctx.forceConfirmations
          b.prepared).map Payload.plain) =
          preparedIdentities (orderMessages ctx.forceConfirmations b.prepared) := by
        simp [payloadIdentities, preparedIdentities, List.flatMap_map, Payload.identities,
          Payload.messages, Payload.ownIdentity]
        exact List.map_eq_flatMap.symm
      rw [hids]
      exact hdrawn
    · obtain ⟨m, -, rfl⟩ := List.mem_map.mp hp
      simp [Payload.Encloses, Payload.ownIdentity]
  case isFalse hmode =>
    rw [if_neg hmode] at hdraws
    have hflat : DrawnSince s₀ b.session ([] ++ preparedIdentities
        (containers ctx.forceConfirmations
          (orderMessages ctx.forceConfirmations b.prepared).length false
          (orderMessages ctx.forceConfirmations b.prepared)).flatten) := by
      rw [containers_flatten _ _ _ _ le_rfl, List.nil_append]
      exact hdrawn
    simpa using encryptedPayloads_ordered hb.ext _ hflat hdraws

theorem draws_subset_payloads (b : Batch) :
    b.session.draws ⊆ (ctx.payloads globalTime b).2.draws := by
  unfold TransactionContext.payloads
  dsimp only
  split
  · exact fun _ h => h
  · exact draws_subset_encryptedPayloads _

/-- A transaction that is given up hands out nothing. -/
theorem transactions_of_violated
    (h : (transportReadyForTransaction globalTime ctx s).monotonityViolated = true) :
    (transportReadyForTransaction globalTime ctx s).transactions = [] := by
  unfold transportReadyForTransaction at h ⊢
  dsimp only at h ⊢
  split
  · rfl
  case isFalse hcond => simp [hcond] at h

/-- **A transaction that is not given up draws in order**, and so do its payloads. -/
theorem transaction_inOrder (hs : s.Ordered) (hresent : ResentDrawn ctx s)
    (hviolated : (transportReadyForTransaction globalTime ctx s).monotonityViolated = false)
    (hdraws : ∀ d ∈ (transportReadyForTransaction globalTime ctx s).session.draws,
      d.InOrder) :
    s.Extends (transportReadyForTransaction globalTime ctx s).session ∧
    DrawnSince s (transportReadyForTransaction globalTime ctx s).session
      (handedIdentities (transportReadyForTransaction globalTime ctx s).transactions) ∧
    ∀ t ∈ (transportReadyForTransaction globalTime ctx s).transactions,
      t.payload.Encloses := by
  unfold transportReadyForTransaction at *
  dsimp only at *
  split at hviolated
  case isTrue hcond =>
    rw [if_pos hcond] at hdraws ⊢
    have hb := prepare_inOrder hs hresent hviolated fun d hd => (hdraws d hd).toNoOverflow
    exact ⟨hb.ext, .nil, by simp⟩
  case isFalse hcond =>
    rw [if_neg hcond] at hdraws ⊢
    have hnot : (ctx.prepare globalTime s).monotonityViolated = false := by
      by_contra h
      simp [h] at hcond
    have hb := prepare_inOrder hs hresent hnot fun d hd =>
      (hdraws d (draws_subset_payloads _ hd)).toNoOverflow
    obtain ⟨hext, hdrawn, hencloses⟩ := payloads_inOrder hb hdraws
    refine ⟨hext, ?_, fun t ht => ?_⟩
    · simpa [handedIdentities, payloadIdentities, List.flatMap_map] using hdrawn
    · obtain ⟨p, hp, rfl⟩ := List.mem_map.mp ht
      exact hencloses p hp

/-- A time-fix ping whose clock is not behind draws in order. -/
theorem timeFixPing_inOrder (hs : s.Ordered) {authInfo : Option TransactionAuthInfo}
    {randomId : BitVec 64}
    (hdraws : ∀ d ∈ (timeFixPing globalTime authInfo randomId s).2.draws, d.InOrder) :
    s.Extends (timeFixPing globalTime authInfo randomId s).2 ∧
    DrawnSince s (timeFixPing globalTime authInfo randomId s).2
      (handedIdentities (timeFixPing globalTime authInfo randomId s).1) ∧
    ∀ t ∈ (timeFixPing globalTime authInfo randomId s).1, t.payload.Encloses := by
  rw [timeFixPing_session] at hdraws ⊢
  have hinOrder := hdraws (s.draw globalTime false false).1 (by simp)
  obtain ⟨hext, hnew⟩ := hs.draw hinOrder.toNoOverflow (hinOrder.forward rfl)
  refine ⟨hext, ?_, fun t ht => ?_⟩
  · unfold timeFixPing
    dsimp only
    split
    · exact DrawnSince.nil.append_draw hs (.refl hs) hext drew_draw hnew
    · exact .nil
  · unfold timeFixPing at ht
    dsimp only at ht
    split at ht
    · obtain rfl := List.mem_singleton.mp ht
      simp [Payload.Encloses, Payload.messages]
    · simp at ht

/-- Payloads drawn in order after those there are keep the whole in order. -/
theorem OrderedMessages.append (h : OrderedMessages ts)
    (hdrew : ∀ i ∈ handedIdentities ts, s.Drew i.messageId i.seqNo) (hs : s.Ordered)
    (hext : s.Extends s') (hdrawn : DrawnSince s s' (handedIdentities ts'))
    (hencloses : ∀ t ∈ ts', t.payload.Encloses) :
    OrderedMessages (ts ++ ts') ∧
      ∀ i ∈ handedIdentities (ts ++ ts'), s'.Drew i.messageId i.seqNo := by
  have happend : handedIdentities (ts ++ ts') =
      handedIdentities ts ++ handedIdentities ts' := List.flatMap_append
  have hall : ∀ i ∈ handedIdentities (ts ++ ts'), s'.Drew i.messageId i.seqNo := by
    intro i hi
    rw [happend, List.mem_append] at hi
    rcases hi with hi | hi
    · exact (hdrew i hi).mono hext
    · exact hdrawn.drew i hi
  refine ⟨⟨?_, ?_, ?_⟩, hall⟩
  · rw [happend, freshIds_append, List.nodup_append]
    refine ⟨h.distinct, hdrawn.nodup, ?_⟩
    rintro x hx y hy rfl
    have hnew := hdrawn.fresh x hy
    obtain ⟨i, hi, -, rfl⟩ := mem_freshIds.mp hx
    have := (hdrew i hi).le_last hs
    omega
  · intro t ht
    rcases List.mem_append.mp ht with ht | ht
    · exact h.container t ht
    · exact hencloses t ht
  · exact fun i hi j hj => hext.ordered.inSequence_of_drew (hall i hi) (hall j hj)

end Step

/-! ### Runs -/

section Runs

variable {α : Type} {globalTime : ℕ → BitVec 64} {r r' : SessionRun} {ev : SessionEvent α}

/-- Messages of the event that bring along an id bring one that the session drew. -/
def SessionEvent.ResentDrawn (ev : SessionEvent α) (s : SessionInfo) : Prop :=
  match ev with
  | .transaction ctx => MtProto.ResentDrawn ctx s
  | _ => True

/-- The event draws no id without a flag when the clock is behind the last id, nothing
overflows, and messages that bring along an id bring one this session drew. -/
structure StepInOrder (globalTime : ℕ → BitVec 64) (r : SessionRun) (ev : SessionEvent α) :
    Prop where
  draws : ∀ d ∈ (r.step globalTime ev).session.draws, d.InOrder
  resent : ev.ResentDrawn r.session

instance (s : SessionInfo) (messageId : BitVec 64) (seqNo : BitVec 32) :
    Decidable (s.Drew messageId seqNo) :=
  inferInstanceAs (Decidable (∃ d ∈ s.draws, d.messageId = messageId ∧ d.seqNo = seqNo))

instance (ctx : TransactionContext) (s : SessionInfo) : Decidable (ResentDrawn ctx s) :=
  inferInstanceAs (Decidable (∀ m ∈ ctx.outgoing s,
    m.messageId ≠ 0 → s.Drew m.messageId m.messageSeqNo))

instance (ev : SessionEvent α) (s : SessionInfo) : Decidable (ev.ResentDrawn s) :=
  match ev with
  | .transaction ctx => inferInstanceAs (Decidable (ResentDrawn ctx s))
  | .timeFixPing _ _ => isTrue trivial
  | .completion _ _ => isTrue trivial
  | .incomingData _ => isTrue trivial
  | .incomingMessage _ _ _ => isTrue trivial
  | .resetSessionInfo => isTrue trivial

instance (d : Draw) : Decidable d.InOrder :=
  decidable_of_iff ((d.reading.toInt + 4 < 2 ^ 63 ∧
      (d.messageIsMeaningful = true → d.lastSeqNo.toInt + 2 < 2 ^ 31)) ∧
      (d.checked = false → d.lastClientMessageId.toInt ≤ d.reading.toInt))
    ⟨fun ⟨⟨h1, h2⟩, h3⟩ => ⟨⟨h1, h2⟩, h3⟩, fun ⟨⟨h1, h2⟩, h3⟩ => ⟨⟨h1, h2⟩, h3⟩⟩

instance (r : SessionRun) (ev : SessionEvent α) :
    Decidable (StepInOrder globalTime r ev) :=
  decidable_of_iff ((∀ d ∈ (r.step globalTime ev).session.draws, d.InOrder) ∧
      ev.ResentDrawn r.session)
    ⟨fun ⟨h1, h2⟩ => ⟨h1, h2⟩, fun ⟨h1, h2⟩ => ⟨h1, h2⟩⟩

/-- What a run in order keeps: the payloads are in order, and as long as the session is in
use, so are its draws, which have all their ids. -/
structure SessionRun.Ordered (r : SessionRun) : Prop where
  messages : OrderedMessages r.handed
  session : r.current = true → r.session.Ordered ∧
    ∀ i ∈ handedIdentities r.handed, r.session.Drew i.messageId i.seqNo

/-- An event that draws nothing keeps the order. -/
theorem SessionRun.Ordered.congr (h : r.Ordered) (hhanded : r'.handed = r.handed)
    (hcurrent : r'.current = true → r.current = true)
    (hdraws : r'.session.draws = r.session.draws)
    (hlast : r'.session.lastClientMessageId = r.session.lastClientMessageId)
    (hseqNo : r'.session.seqNo = r.session.seqNo) : r'.Ordered where
  messages := hhanded ▸ h.messages
  session hr' := by
    obtain ⟨hs, hdrew⟩ := h.session (hcurrent hr')
    rw [hhanded]
    refine ⟨⟨hdraws ▸ hs.inSequence, ?_, ?_, hseqNo ▸ hs.even⟩, fun i hi => ?_⟩
    · rw [hdraws, hlast]
      exact hs.last
    · rw [hdraws, hseqNo]
      exact hs.seqNo
    · obtain ⟨d, hd, hid⟩ := hdrew i hi
      exact ⟨d, hdraws ▸ hd, hid⟩

/-- **A step in order keeps the order.** -/
theorem ordered_moves (h : r.Ordered) (hmoves : r.Moves globalTime ev r')
    (hdraws : ∀ d ∈ r'.session.draws, d.InOrder)
    (hresent : ev.ResentDrawn r.session) : r'.Ordered := by
  cases hmoves with
  | ignored => exact h
  | transaction ctx hcurrent =>
      obtain ⟨hs, hdrew⟩ := h.session hcurrent
      cases hviolated :
          (transportReadyForTransaction globalTime ctx r.session).monotonityViolated with
      | true =>
          rw [transactions_of_violated hviolated, List.append_nil]
          exact ⟨h.messages, by simp⟩
      | false =>
          obtain ⟨hext, hdrawn, hencloses⟩ := transaction_inOrder hs hresent hviolated hdraws
          obtain ⟨hmessages, hall⟩ := h.messages.append hdrew hs hext hdrawn hencloses
          exact ⟨hmessages, fun _ => ⟨hext.ordered, hall⟩⟩
  | timeFixPing authInfo randomId hcurrent =>
      obtain ⟨hs, hdrew⟩ := h.session hcurrent
      obtain ⟨hext, hdrawn, hencloses⟩ := timeFixPing_inOrder hs hdraws
      obtain ⟨hmessages, hall⟩ := h.messages.append hdrew hs hext hdrawn hencloses
      exact ⟨hmessages, fun _ => ⟨hext.ordered, hall⟩⟩
  | completion transactionId ht =>
      refine h.congr rfl (fun h => h) ?_ ?_ ?_ <;>
        · unfold TransportTransaction.confirm
          dsimp only
          split
          · rfl
          · split <;> rfl
  | incomingData transactionId _ => exact h.congr rfl (fun h => h) rfl rfl rfl
  | incomingMessage useUnauthorizedMode message shouldRequest hcurrent =>
      obtain ⟨hd, hl, hq⟩ := processIncomingMessage_induction
        (P := fun s => s.draws = r.session.draws ∧
          s.lastClientMessageId = r.session.lastClientMessageId ∧ s.seqNo = r.session.seqNo)
        useUnauthorizedMode shouldRequest message (fun _ _ hs => hs)
        (fun s messageId size hs => by
          unfold SessionInfo.scheduleMessageConfirmation
          split <;> exact hs)
        (r := r) ⟨rfl, rfl, rfl⟩
      exact h.congr (by simp) (fun _ => hcurrent) hd hl hq
  | resetSessionInfo => exact h.congr rfl (by simp) rfl rfl rfl

/-- **Message order.** In every run whose steps are in order, the messages handed to the
transport are in order in every state: fresh ids are distinct, containers are above their
messages, and smaller ids have smaller sequence numbers. -/
theorem messages_ordered (globalTime : ℕ → BitVec 64) (sessionId : BitVec 64)
    (es : List (SessionEvent α))
    (h : Machine.AllSteps (SessionRun.step globalTime) (StepInOrder globalTime)
      (.init sessionId) es) :
    Machine.Always (SessionRun.step globalTime) (fun r => OrderedMessages r.handed)
      (.init sessionId) es := by
  have hinit : (SessionRun.init sessionId).Ordered :=
    ⟨⟨by simp [SessionRun.init, handedIdentities, freshIds], by simp [SessionRun.init],
      by simp [SessionRun.init, handedIdentities]⟩,
      fun _ => ⟨⟨by simp [SessionRun.init, SessionInfo.init],
        by simp [SessionRun.init, SessionInfo.init], by simp [SessionRun.init, SessionInfo.init],
        by simp [SessionRun.init, SessionInfo.init]⟩,
        by simp [SessionRun.init, handedIdentities]⟩⟩
  have hordered := Machine.always_of_allSteps (I := SessionRun.Ordered)
    (fun r ev hr hev => ordered_moves hr (session_moves_step globalTime r ev) hev.draws
      hev.resent) hinit h
  exact hordered.mono fun r hr => hr.messages

end Runs

/-- Two messages of one byte each, sent in one container. -/
def twoMessages : TransactionContext where
  transportSpecificTransaction := none
  serviceTransactions := [⟨[.init 1 [1], .init 2 [2]], true⟩]
  forceConfirmations := true
  needsParityCorrection := false
  useUnauthorizedMode := false
  authInfo := some ⟨[1], fun _ => 1⟩

/-- A clock that moves on between the draws: two messages, then a ping. -/
theorem messages_ordered_twoMessages :
    Machine.Always (SessionRun.step fun n => 4 * (n + 1 : BitVec 64))
      (fun r => OrderedMessages r.handed) (.init 5)
      [(.transaction twoMessages : SessionEvent Unit),
        .timeFixPing twoMessages.authInfo 7] :=
  messages_ordered _ _ _ (by decide +kernel)

/-- A clock that reads the same for the two messages and their container: the container
gets the id of the first message. -/
theorem messages_ordered_sameReading :
    ¬OrderedMessages (SessionRun.after (α := Unit) (fun _ => 4) 5
      [.transaction twoMessages]).handed := by
  intro h
  exact absurd h.distinct (by decide +kernel)

end Telegraph.MtProto
