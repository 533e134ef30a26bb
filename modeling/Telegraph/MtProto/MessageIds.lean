import Mathlib.Data.List.Chain
import Telegraph.MtProto.SessionInfo

/-!
# Message Ids of One Session

A session draws its message ids from the clock. A reading that equals the last id is replaced by
the next number, and the id is rounded up to a multiple of four, so that the last id runs ahead of
the clock. The next reading is compared with the last id and not with the last reading: two calls
at one reading are enough to find the clock behind.

## Main results

* `generated_increase_iff`: **the ids increase, without a violation, in exactly the runs in which
  no reading is behind the last id** (and none is at the end of the `int64_t` range).
* `generated_increase_of_apart`: readings that are at least four apart make such a run.
-/

namespace Telegraph.MtProto

namespace SessionInfo

/-- The ids of so many calls of `generateClientMessageId:`, and whether each violated the
monotonity. -/
def generated (globalTime : ℕ → BitVec 64) : ℕ → SessionInfo → List (BitVec 64 × Bool)
  | 0, _ => []
  | calls + 1, s =>
      let (messageId, monotonityViolated, s) := s.generateClientMessageId globalTime
      (messageId, monotonityViolated) :: generated globalTime calls s

/-- The session after so many calls. -/
def afterCalls (globalTime : ℕ → BitVec 64) : ℕ → SessionInfo → SessionInfo
  | 0, s => s
  | calls + 1, s => afterCalls globalTime calls (s.generateClientMessageId globalTime).2.2

/-- No call found the clock behind, every id is a multiple of four, and each is above the one
before, the first above the last id of the session. -/
structure Increase (s : SessionInfo) (calls : List (BitVec 64 × Bool)) : Prop where
  monotone : ∀ call ∈ calls, call.2 = false
  aligned : ∀ call ∈ calls, call.1.srem 4 = 0
  increasing : (s.lastClientMessageId :: calls.map Prod.fst).IsChain fun id next =>
    id.toInt < next.toInt

/-- The clock is not behind the last id, and the next id is in the range of an `int64_t`. -/
structure InTime (globalTime : ℕ → BitVec 64) (s : SessionInfo) : Prop where
  forward : s.lastClientMessageId.toInt ≤ (globalTime s.readings).toInt
  room : max (globalTime s.readings).toInt (s.lastClientMessageId.toInt + 1) ≤ 2 ^ 63 - 4

variable {globalTime : ℕ → BitVec 64} {s : SessionInfo}

/-- At the end of the range the rounding overflows. -/
theorem alignMessageId_of_gt {m : BitVec 64} (h : 2 ^ 63 - 4 < m.toInt) :
    (alignMessageId 3 m).toInt = -2 ^ 63 := by
  have hlt := BitVec.toInt_lt (x := m)
  obtain hm | hm | hm : m.toInt = (BitVec.ofInt 64 (2 ^ 63 - 3)).toInt ∨
      m.toInt = (BitVec.ofInt 64 (2 ^ 63 - 2)).toInt ∨
      m.toInt = (BitVec.ofInt 64 (2 ^ 63 - 1)).toInt := by
    rw [show (BitVec.ofInt 64 (2 ^ 63 - 3)).toInt = 2 ^ 63 - 3 by decide,
      show (BitVec.ofInt 64 (2 ^ 63 - 2)).toInt = 2 ^ 63 - 2 by decide,
      show (BitVec.ofInt 64 (2 ^ 63 - 1)).toInt = 2 ^ 63 - 1 by decide]
    omega
  all_goals
    rw [BitVec.toInt_inj.mp hm]
    decide

/-- The rounding goes up by three at most. -/
theorem toInt_alignMessageId_le (rounds : ℕ) {m : BitVec 64} (h : m.toInt + rounds < 2 ^ 63) :
    (alignMessageId rounds m).toInt ≤ m.toInt + rounds := by
  induction rounds generalizing m with
  | zero => exact Int.le_of_eq (Int.add_zero _).symm
  | succ rounds ih =>
      have hadd : (m + 1).toInt = m.toInt + 1 := toInt_add_one (by omega)
      have hle := ih (m := m + 1) (by omega)
      rw [alignMessageId]
      split <;> omega

/-- The number that is rounded up: the reading, or the one after the last id. -/
theorem toInt_candidate {reading last : BitVec 64} (hforward : last.toInt ≤ reading.toInt)
    (hlast : last.toInt + 1 < 2 ^ 63) :
    (if reading = last then last + 1 else reading).toInt =
      max reading.toInt (last.toInt + 1) := by
  split
  · next heq =>
      rw [heq, toInt_add_one hlast]
      omega
  · next hne =>
      have hdiffer : reading.toInt ≠ last.toInt := fun h => hne (BitVec.toInt_inj.mp h)
      omega

/-- **One call is right exactly when the clock is in time.** -/
theorem inTime_iff (globalTime : ℕ → BitVec 64) (s : SessionInfo) :
    s.InTime globalTime ↔ (s.generateClientMessageId globalTime).2.1 = false ∧
      s.lastClientMessageId.toInt < (s.generateClientMessageId globalTime).1.toInt := by
  have hflag : (s.generateClientMessageId globalTime).2.1 = false ↔
      s.lastClientMessageId.toInt ≤ (globalTime s.readings).toInt := by
    show (globalTime s.readings).slt s.lastClientMessageId = false ↔ _
    rw [BitVec.slt_eq_decide, decide_eq_false_iff_not, Int.not_lt]
  have hid : (s.generateClientMessageId globalTime).1 =
      alignMessageId 3 (if globalTime s.readings = s.lastClientMessageId then
        s.lastClientMessageId + 1 else globalTime s.readings) := rfl
  have hlow := BitVec.le_toInt s.lastClientMessageId
  rw [hflag]
  constructor
  · rintro ⟨hforward, hroom⟩
    have hcandidate := toInt_candidate hforward (by omega)
    rw [← hcandidate] at hroom
    have hle := le_toInt_alignMessageId (m := if globalTime s.readings = s.lastClientMessageId then
      s.lastClientMessageId + 1 else globalTime s.readings) 3 (by omega)
    rw [← hid, hcandidate] at hle
    exact ⟨hforward, by omega⟩
  · rintro ⟨hforward, hlt⟩
    have hhigh := BitVec.toInt_lt (x := (s.generateClientMessageId globalTime).1)
    have hcandidate := toInt_candidate hforward (by omega)
    refine ⟨hforward, ?_⟩
    by_contra hroom
    rw [← hcandidate] at hroom
    rw [hid, alignMessageId_of_gt (by omega)] at hlt
    omega

/-- The first of several calls. -/
theorem increase_cons (globalTime : ℕ → BitVec 64) (calls : ℕ) (s : SessionInfo) :
    s.Increase (s.generated globalTime (calls + 1)) ↔ s.InTime globalTime ∧
      (s.generateClientMessageId globalTime).2.2.Increase
        ((s.generateClientMessageId globalTime).2.2.generated globalTime calls) := by
  have hcalls : s.generated globalTime (calls + 1) =
      ((s.generateClientMessageId globalTime).1, (s.generateClientMessageId globalTime).2.1) ::
        (s.generateClientMessageId globalTime).2.2.generated globalTime calls := rfl
  have hlast : (s.generateClientMessageId globalTime).2.2.lastClientMessageId =
      (s.generateClientMessageId globalTime).1 := rfl
  rw [hcalls, inTime_iff]
  constructor
  · rintro ⟨hmonotone, haligned, hincreasing⟩
    rw [List.map_cons, List.isChain_cons_cons] at hincreasing
    refine ⟨⟨hmonotone _ List.mem_cons_self, hincreasing.1⟩, ?_⟩
    refine ⟨fun call h => hmonotone call (List.mem_cons_of_mem _ h),
      fun call h => haligned call (List.mem_cons_of_mem _ h), ?_⟩
    rw [hlast]
    exact hincreasing.2
  · rintro ⟨⟨hflag, hlt⟩, hmonotone, haligned, hincreasing⟩
    rw [hlast] at hincreasing
    refine ⟨?_, ?_, ?_⟩
    · rintro call (_ | ⟨_, h⟩)
      · exact hflag
      · exact hmonotone call h
    · rintro call (_ | ⟨_, h⟩)
      · exact srem_alignMessageId _
      · exact haligned call h
    · rw [List.map_cons, List.isChain_cons_cons]
      exact ⟨hlt, hincreasing⟩

/-- **The ids increase, without a violation, in exactly the runs in which the clock is in time at
every call.** -/
theorem generated_increase_iff (globalTime : ℕ → BitVec 64) (s : SessionInfo) (calls : ℕ) :
    s.Increase (s.generated globalTime calls) ↔
      ∀ made < calls, (s.afterCalls globalTime made).InTime globalTime := by
  induction calls generalizing s with
  | zero =>
      refine ⟨fun _ made h => absurd h (Nat.not_lt_zero made), fun _ => ⟨?_, ?_, ?_⟩⟩
      · exact fun call h => absurd h List.not_mem_nil
      · exact fun call h => absurd h List.not_mem_nil
      · exact List.isChain_singleton _
  | succ calls ih =>
      rw [increase_cons, ih]
      constructor
      · rintro ⟨hfirst, hrest⟩ made hmade
        cases made with
        | zero => exact hfirst
        | succ made => exact hrest made (Nat.lt_of_succ_lt_succ hmade)
      · intro h
        exact ⟨h 0 (Nat.succ_pos calls), fun made hmade => h (made + 1) (Nat.succ_lt_succ hmade)⟩

/-- Readings that are at least four apart make a run in which the clock is in time. -/
theorem generated_increase_of_apart {calls : ℕ}
    (hfirst : s.lastClientMessageId.toInt ≤ (globalTime s.readings).toInt)
    (hapart : ∀ i, (globalTime i).toInt + 4 ≤ (globalTime (i + 1)).toInt)
    (hroom : ∀ i < s.readings + calls, (globalTime i).toInt < 2 ^ 63 - 4) :
    s.Increase (s.generated globalTime calls) := by
  induction calls generalizing s with
  | zero => exact (generated_increase_iff _ _ _).mpr fun made h => absurd h (Nat.not_lt_zero made)
  | succ calls ih =>
      have hreading := hroom s.readings (by omega)
      have hcandidate := toInt_candidate hfirst (by omega)
      have hle := toInt_alignMessageId_le 3 (m := if globalTime s.readings = s.lastClientMessageId
        then s.lastClientMessageId + 1 else globalTime s.readings) (by omega)
      have hnext := hapart s.readings
      refine (increase_cons _ _ _).mpr ⟨⟨hfirst, by omega⟩, ih ?_ fun i hi => ?_⟩
      · show (alignMessageId 3 (if globalTime s.readings = s.lastClientMessageId then
          s.lastClientMessageId + 1 else globalTime s.readings)).toInt ≤
            (globalTime (s.readings + 1)).toInt
        omega
      · have hcount : (s.generateClientMessageId globalTime).2.2.readings = s.readings + 1 := rfl
        exact hroom i (by omega)

/-- Two calls at one reading: the second finds the clock behind. -/
theorem generated_sameReading :
    ¬ ∀ (globalTime : ℕ → BitVec 64) (s : SessionInfo) (calls : ℕ),
      (∀ i, (globalTime i).toInt ≤ (globalTime (i + 1)).toInt) →
        s.Increase (s.generated globalTime calls) := by
  intro h
  have hmonotone := (h (fun _ => 1) (.init 0 0 0) 2 fun _ => Int.le_refl _).monotone
  have hcalls : (init 0 0 0).generated (fun _ => 1) 2 = [(4, false), (4, true)] := rfl
  rw [hcalls] at hmonotone
  exact absurd (hmonotone (4, true) (List.mem_cons_of_mem _ List.mem_cons_self)) nofun

end SessionInfo

end Telegraph.MtProto
