import Mathlib.Data.PNat.Basic
import Telegraph.Lib.Machine
import Telegraph.Lib.SeqNum

/-!
# The Receive Window of a Call

`VoIPController::RunRecvThread` keeps the times of the last 32 sequence numbers in
`recvPacketTimes`, indexed by their distance from `lastRemoteSeq`, and drops a packet
whose slot is already filled. This module models that window — `seqgt`, the sliding of
the array, and the three branches of the receive thread — and says when it is exact.

The clock of the source only ever reads positive, and the window code asks of a time
whether it is zero; a reading is modelled as a positive natural, an empty slot as `0`.

## Main results

* `seqgt_iff`: the wrapping comparison as a bound on the lag.
* `slideTimes_apply`: what one slide of the array does, slot by slot.
* `faithful_step`: **one step keeps the window exact** unless it is a jump.
* `not_exact_of_jump`: a jump of 32 or more always breaks it, since that branch clears
  the window without recording the packet it lets through.
* `recvWindow_exact_iff`: the two put together over whole runs.
-/

open SeqNum

namespace Telegraph.VoIP

/-! ### Sequence numbers -/

/-- `SEQ_MAX`, the largest sequence number. -/
def SEQ_MAX : ℕ := 0xFFFFFFFF

/-- `seqgt`: the wrapping comparison of two 32-bit sequence numbers. -/
def seqgt (s1 s2 : BitVec 32) : Bool :=
  (decide (s1 > s2) && decide ((s1 - s2).toNat ≤ SEQ_MAX / 2)) ||
    (decide (s1 < s2) && decide ((s2 - s1).toNat > SEQ_MAX / 2))

/-- `seqgt` puts `s1` ahead of `s2` when `s1` lies more than half the range behind `s2`;
at exactly half the range the smaller number is ahead. -/
theorem seqgt_iff {s1 s2 : BitVec 32} :
    seqgt s1 s2 = true ↔ 2 ^ 31 < lag s2 s1 ∨ lag s2 s1 = 2 ^ 31 ∧ s1 < s2 := by
  have hmax : SEQ_MAX / 2 = 0x7FFFFFFF := rfl
  simp only [seqgt, hmax, lag, Bool.or_eq_true, Bool.and_eq_true, decide_eq_true_eq]
  constructor
  · intro h
    bv_omega
  · intro h
    bv_omega

/-- A number `seqgt` puts ahead of `l` is at least half the range behind it. -/
theorem seqgt_lag {p l : BitVec 32} (h : seqgt p l = true) : 2 ^ 31 ≤ lag l p := by
  rcases seqgt_iff.mp h with h | ⟨h, -⟩
  · exact h.le
  · exact h.ge

/-- A number `seqgt` puts ahead of `l` differs from it. -/
theorem lag_pos_of_seqgt {p l : BitVec 32} (h : seqgt p l = true) : 0 < lag p l := by
  rcases Nat.eq_zero_or_pos (lag p l) with h0 | h0
  · have hhalf := seqgt_lag h
    rw [lag_eq_zero.mp h0, lag_self] at hhalf
    omega
  · exact h0

/-! ### The sliding array -/

/-- The index `i` of an array of 32 entries. -/
abbrev entry (i : ℕ) : Fin 32 := Fin.ofNat 32 i

section Slide

variable {α : Type*}

/-- `memmove(&a[diff], a, (32-diff)*sizeof(a[0]))`. -/
def memmoveUp (diff : ℕ) (a : Fin 32 → α) : Fin 32 → α := fun k =>
  if diff ≤ k.val then a ⟨k.val - diff, by omega⟩ else a k

/-- `memset(a, 0, count*sizeof(a[0]))`, with the zero of the element type given. -/
def memsetZero (zero : α) (count : ℕ) (a : Fin 32 → α) : Fin 32 → α := fun k =>
  if k.val < count then zero else a k

/-- The sliding code `RunRecvThread` has for `recvPacketTimes` and again for
`remoteAcks`: the array moves up by `diff` and the new head gets the time `now`, except
that a jump past the whole array only clears it. -/
def slideTimes (zero : α) (diff : ℕ) (now : α) (a : Fin 32 → α) : Fin 32 → α :=
  if diff > 31 then
    memsetZero zero 32 a
  else
    let moved := memmoveUp diff a
    let cleared := if diff > 1 then memsetZero zero diff moved else moved
    Function.update cleared 0 now

/-- What a slide within the array puts in each slot. -/
theorem slideTimes_apply {zero now : α} {diff : ℕ} {a : Fin 32 → α} (hpos : 0 < diff)
    (hdiff : diff ≤ 31) (k : Fin 32) :
    slideTimes zero diff now a k =
      if k.val = 0 then now
      else if k.val < diff then zero
      else a ⟨k.val - diff, by omega⟩ := by
  have hnot : ¬ diff > 31 := by omega
  simp only [slideTimes, if_neg hnot]
  by_cases hk : k = 0
  · subst hk
    simp
  · have hk0 : k.val ≠ 0 := fun h => hk (Fin.ext h)
    rw [Function.update_of_ne hk, if_neg hk0]
    by_cases h1 : diff > 1
    · simp only [if_pos h1, memsetZero, memmoveUp]
      by_cases hlt : k.val < diff
      · simp only [if_pos hlt]
      · simp only [if_neg hlt, if_pos (Nat.le_of_not_lt hlt)]
    · have hlt : ¬ k.val < diff := by omega
      simp only [if_neg h1, memmoveUp, if_neg hlt, if_pos (Nat.le_of_not_lt hlt)]

/-- A slide past the whole array leaves it empty. -/
theorem slideTimes_jump {zero now : α} {diff : ℕ} {a : Fin 32 → α} (hdiff : 31 < diff)
    (k : Fin 32) : slideTimes zero diff now a k = zero := by
  simp [slideTimes, hdiff, memsetZero, k.isLt]

end Slide

/-! ### The receive window -/

/-- `lastRemoteSeq` and `recvPacketTimes`. -/
structure RecvWindow where
  lastRemoteSeq : BitVec 32
  recvPacketTimes : Fin 32 → ℕ

/-- The window the constructor sets up. -/
def RecvWindow.init : RecvWindow where
  lastRemoteSeq := 0
  recvPacketTimes := fun _ => 0

/-- The window code of `RunRecvThread` for an authenticated packet `pseq` read at `now`;
the unsigned differences of the source are the lags. The flag tells whether the packet
goes on to the code below or is dropped (`continue`). -/
def receiveSeq (w : RecvWindow) (pseq : BitVec 32) (now : ℕ+) : RecvWindow × Bool :=
  if seqgt pseq w.lastRemoteSeq then
    ({ lastRemoteSeq := pseq
       recvPacketTimes :=
         slideTimes 0 (lag pseq w.lastRemoteSeq) now.val w.recvPacketTimes }, true)
  else if h : lag w.lastRemoteSeq pseq < 32 then
    let slot : Fin 32 := ⟨lag w.lastRemoteSeq pseq, h⟩
    if w.recvPacketTimes slot ≠ 0 then
      (w, false)
    else
      ({ w with recvPacketTimes := Function.update w.recvPacketTimes slot now.val }, true)
  else
    (w, false)

/-- What one arrival can do: move the window up, fill an empty slot, or be dropped. -/
theorem receiveSeq_cases (w : RecvWindow) (pseq : BitVec 32) (now : ℕ+) :
    (seqgt pseq w.lastRemoteSeq = true ∧ receiveSeq w pseq now =
      ({ lastRemoteSeq := pseq
         recvPacketTimes :=
           slideTimes 0 (lag pseq w.lastRemoteSeq) now.val w.recvPacketTimes }, true)) ∨
    (∃ slot : Fin 32, slot.val = lag w.lastRemoteSeq pseq ∧ w.recvPacketTimes slot = 0 ∧
      receiveSeq w pseq now = ({ w with
        recvPacketTimes := Function.update w.recvPacketTimes slot now.val }, true)) ∨
    receiveSeq w pseq now = (w, false) := by
  by_cases hgt : seqgt pseq w.lastRemoteSeq = true
  · exact Or.inl ⟨hgt, by simp only [receiveSeq, if_pos hgt]⟩
  · by_cases h : lag w.lastRemoteSeq pseq < 32
    · by_cases hz : w.recvPacketTimes ⟨lag w.lastRemoteSeq pseq, h⟩ = 0
      · refine Or.inr (Or.inl ⟨_, rfl, hz, ?_⟩)
        simp only [receiveSeq, if_neg hgt, dif_pos h, if_neg (not_not.mpr hz)]
      · refine Or.inr (Or.inr ?_)
        simp only [receiveSeq, if_neg hgt, dif_pos h, if_pos hz]
    · refine Or.inr (Or.inr ?_)
      simp only [receiveSeq, if_neg hgt, dif_neg h]

/-- The branch of `receiveSeq` that clears the window: `pseq` is 32 or more ahead. -/
def Jumps (w : RecvWindow) (pseq : BitVec 32) : Prop :=
  seqgt pseq w.lastRemoteSeq = true ∧ 31 < lag pseq w.lastRemoteSeq

instance (w : RecvWindow) (pseq : BitVec 32) : Decidable (Jumps w pseq) :=
  inferInstanceAs (Decidable (_ ∧ _))

/-! ### The window against its history -/

/-- An authenticated packet reaching the window, and the clock at that moment. -/
structure Arrival where
  pseq : BitVec 32
  now : ℕ+

/-- The window together with its history: `passed` lists the numbers passed on to the
type handlers that have stayed within `2 ^ 31` of `lastRemoteSeq` ever since. -/
structure RecvHistory where
  window : RecvWindow
  passed : List (BitVec 32)

/-- A call before any packet arrived. -/
def RecvHistory.init : RecvHistory where
  window := RecvWindow.init
  passed := []

/-- One arrival, recorded in the history when the window lets it through. -/
def RecvHistory.step (s : RecvHistory) (a : Arrival) : RecvHistory :=
  let r := receiveSeq s.window a.pseq a.now
  { window := r.1
    passed := (if r.2 then a.pseq :: s.passed else s.passed).filter
      (fun q => lag r.1.lastRemoteSeq q < 2 ^ 31) }

/-- The window is exact: a slot is filled if and only if the number it stands for has
been passed on. -/
def Exact (s : RecvHistory) : Prop :=
  ∀ i : Fin 32, 0 < s.window.recvPacketTimes i ↔
    s.window.lastRemoteSeq - BitVec.ofNat 32 i ∈ s.passed

/-- The arrival `a` is passed on only if its number has not been passed on before. -/
def PassedOnce (s : RecvHistory) (a : Arrival) : Prop :=
  (receiveSeq s.window a.pseq a.now).2 = true → a.pseq ∉ s.passed

/-- The arrival `a` is less than 32 ahead of the window, or not ahead of it at all. -/
def NoJump (s : RecvHistory) (a : Arrival) : Prop :=
  ¬ Jumps s.window a.pseq

instance (s : RecvHistory) : Decidable (Exact s) :=
  inferInstanceAs (Decidable (∀ _ : Fin 32, _))

instance (s : RecvHistory) (a : Arrival) : Decidable (PassedOnce s a) :=
  inferInstanceAs (Decidable (_ → _))

instance (s : RecvHistory) (a : Arrival) : Decidable (NoJump s a) :=
  inferInstanceAs (Decidable (¬ _))

/-- The history only lists numbers within `2 ^ 31` of `lastRemoteSeq`. -/
def Near (s : RecvHistory) : Prop :=
  ∀ q ∈ s.passed, lag s.window.lastRemoteSeq q < 2 ^ 31

/-- The invariant of a run without jumps. -/
def Faithful (s : RecvHistory) : Prop :=
  Exact s ∧ Near s

theorem faithful_init : Faithful RecvHistory.init :=
  ⟨fun _ => ⟨fun h => absurd h (lt_irrefl 0), fun h => absurd h List.not_mem_nil⟩,
    fun _ h => absurd h List.not_mem_nil⟩

/-- Every step keeps the history near the window: it filters it. -/
theorem near_step (s : RecvHistory) (a : Arrival) : Near (s.step a) := by
  intro q hq
  exact of_decide_eq_true (List.mem_filter.mp hq).2

/-- Moving the window up by less than 32 keeps it exact. -/
theorem exact_of_ahead {s : RecvHistory} {a : Arrival} (h : Faithful s)
    (hgt : seqgt a.pseq s.window.lastRemoteSeq = true) (hjump : NoJump s a)
    (hr : receiveSeq s.window a.pseq a.now =
      ({ lastRemoteSeq := a.pseq
         recvPacketTimes := slideTimes 0 (lag a.pseq s.window.lastRemoteSeq) a.now.val
           s.window.recvPacketTimes }, true)) : Exact (s.step a) := by
  obtain ⟨hexact, hnear⟩ := h
  have hd : lag a.pseq s.window.lastRemoteSeq ≤ 31 := by
    by_contra hc
    exact hjump ⟨hgt, not_le.mp hc⟩
  have hd0 : 0 < lag a.pseq s.window.lastRemoteSeq := lag_pos_of_seqgt hgt
  intro i
  have hlag : lag a.pseq (a.pseq - BitVec.ofNat 32 i) = i.val :=
    lag_sub_ofNat _ (by omega)
  have hback : a.pseq - BitVec.ofNat 32 i = a.pseq → i.val = 0 := by
    intro heq
    rw [← hlag, heq, lag_self]
  have hi31 : i.val < 2 ^ 31 := by omega
  simp only [RecvHistory.step, hr, slideTimes_apply hd0 hd, if_true, List.mem_filter,
    List.mem_cons, hlag, decide_eq_true_eq, hi31, and_true]
  by_cases hi0 : i.val = 0
  · have hi : i = 0 := Fin.ext hi0
    subst hi
    simp [a.now.pos]
  · rw [if_neg hi0]
    by_cases hid : i.val < lag a.pseq s.window.lastRemoteSeq
    · -- the slots between the old head and the new one: nothing in the history reaches them
      rw [if_pos hid]
      refine ⟨fun h0 => absurd h0 (lt_irrefl 0), ?_⟩
      rintro (hmem | hmem)
      · exact absurd (hback hmem) hi0
      · have hq := hnear _ hmem
        have hadd : lag a.pseq (a.pseq - BitVec.ofNat 32 i) =
            lag s.window.lastRemoteSeq (a.pseq - BitVec.ofNat 32 i) +
              lag a.pseq s.window.lastRemoteSeq := lag_advance (by omega)
        omega
    · rw [if_neg hid, hexact ⟨_, _⟩, ← sub_ofNat_advance (Nat.le_of_not_lt hid)]
      refine ⟨Or.inr, ?_⟩
      rintro (hmem | hmem)
      · exact absurd (hback hmem) hi0
      · exact hmem

/-- Filling an empty slot of the window keeps it exact. -/
theorem exact_of_slot {s : RecvHistory} {a : Arrival} (h : Faithful s) {slot : Fin 32}
    (hk : slot.val = lag s.window.lastRemoteSeq a.pseq)
    (hr : receiveSeq s.window a.pseq a.now = ({ s.window with
      recvPacketTimes := Function.update s.window.recvPacketTimes slot a.now.val }, true)) :
    Exact (s.step a) := by
  obtain ⟨hexact, -⟩ := h
  intro i
  have hlag : lag s.window.lastRemoteSeq (s.window.lastRemoteSeq - BitVec.ofNat 32 i) = i.val :=
    lag_sub_ofNat _ (by omega)
  have hi31 : i.val < 2 ^ 31 := by omega
  simp only [RecvHistory.step, hr, if_true, List.mem_filter, List.mem_cons, hlag,
    decide_eq_true_eq, hi31, and_true]
  by_cases hik : i = slot
  · subst hik
    simp only [Function.update_self, hk, sub_lag, true_or, iff_true]
    exact a.now.pos
  · rw [Function.update_of_ne hik, hexact i]
    refine ⟨Or.inr, ?_⟩
    rintro (heq | hmem)
    · exact absurd (Fin.ext (by rw [hk, ← hlag, heq])) hik
    · exact hmem

/-- A dropped packet changes nothing. -/
theorem exact_of_dropped {s : RecvHistory} {a : Arrival} (h : Faithful s)
    (hr : receiveSeq s.window a.pseq a.now = (s.window, false)) : Exact (s.step a) := by
  obtain ⟨hexact, hnear⟩ := h
  intro i
  simp only [RecvHistory.step, hr, Bool.false_eq_true, if_false, List.mem_filter,
    decide_eq_true_eq]
  rw [hexact i]
  exact ⟨fun hmem => ⟨hmem, hnear _ hmem⟩, And.left⟩

/-- **One step keeps the window exact**, unless it is a jump. -/
theorem faithful_step (s : RecvHistory) (a : Arrival) (h : Faithful s) (hjump : NoJump s a) :
    Faithful (s.step a) := by
  refine ⟨?_, near_step s a⟩
  rcases receiveSeq_cases s.window a.pseq a.now with ⟨hgt, hr⟩ | ⟨slot, hk, -, hr⟩ | hr
  · exact exact_of_ahead h hgt hjump hr
  · exact exact_of_slot h hk hr
  · exact exact_of_dropped h hr

/-- An exact window passes no number on twice. -/
theorem passedOnce_of_faithful (s : RecvHistory) (a : Arrival) (h : Faithful s) :
    PassedOnce s a := by
  intro hpass hmem
  rcases receiveSeq_cases s.window a.pseq a.now with ⟨hgt, -⟩ | ⟨slot, hk, hz, -⟩ | hr
  · exact absurd (h.2 _ hmem) (not_lt.mpr (seqgt_lag hgt))
  · have hpos := (h.1 slot).mpr (by rwa [hk, sub_lag])
    omega
  · rw [hr] at hpass
    exact Bool.false_ne_true hpass

/-- A jump leaves the packet it let through out of the window. -/
theorem not_exact_of_jump {s : RecvHistory} {a : Arrival}
    (hjump : Jumps s.window a.pseq) : ¬ Exact (s.step a) := by
  obtain ⟨hgt, hd⟩ := hjump
  intro hexact
  have h0 := (hexact 0).mpr
  simp only [RecvHistory.step, receiveSeq, if_pos hgt, slideTimes_jump hd, if_true] at h0
  refine absurd (h0 ?_) (lt_irrefl 0)
  simp

/-- **The receive window, over whole runs.** The window is exact after every packet, and
passes no number on twice while it stays within `2 ^ 31` of `lastRemoteSeq`, if and only
if no packet of the run arrives 32 or more ahead of `lastRemoteSeq`. -/
theorem recvWindow_exact_iff (arrivals : List Arrival) :
    (Machine.Always RecvHistory.step Exact RecvHistory.init arrivals ∧
      Machine.AllSteps RecvHistory.step PassedOnce RecvHistory.init arrivals) ↔
    Machine.AllSteps RecvHistory.step NoJump RecvHistory.init arrivals := by
  constructor
  · rintro ⟨hexact, -⟩
    refine Machine.allSteps_of_always (fun s a _ hs' => ?_) hexact
    exact fun hjump => not_exact_of_jump hjump hs'
  · intro hno
    have hinv := Machine.always_of_allSteps faithful_step faithful_init hno
    refine ⟨hinv.mono fun s => And.left, ?_⟩
    exact Machine.allSteps_of_always (fun s a hs _ => passedOnce_of_faithful s a hs) hinv

/-- A packet 40 ahead of a fresh window and a duplicate of it: both are passed on. -/
theorem recvWindow_passes_duplicate :
    ¬ Machine.AllSteps RecvHistory.step PassedOnce RecvHistory.init [⟨40, 1⟩, ⟨40, 2⟩] ∧
    ¬ Machine.Always RecvHistory.step Exact RecvHistory.init [⟨40, 1⟩, ⟨40, 2⟩] := by
  decide

end Telegraph.VoIP
