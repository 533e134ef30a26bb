import Mathlib.Data.List.Induction
import Telegraph.Lib.Masks

/-!
# Message Flags

Six properties of a `TGMessage` live in one 64-bit word: four booleans and the edit mark in single
bits, and the layer of a secret message in two groups of bits whose values are added. A call of a
setter is meant to change its own property and nothing else. `setForceReply:` with `false` keeps
the one bit it should clear and clears all others.

## Main results

* `keepsOthers_of_ne`: every other call sets its property and leaves the rest alone.
* `keepsOthers_setForceReply_iff`: `setForceReply:` with `false` does so on a word in which nothing
  is set alone.
* `flags_independent_iff`: **the properties are independent in exactly the runs that make this
  call only when nothing is set**.
-/

namespace Telegraph.Messages

open Masks

/-! ### The word -/

/-- `TGMessageFlagBroadcast`. -/
def TGMessageFlagBroadcast : BitVec 32 := 1

/-- `TGMessageFlagLayerMask`. -/
def TGMessageFlagLayerMask : BitVec 32 := 2 ||| 4 ||| 8 ||| 16 ||| 32

/-- `TGMessageFlagContainsMention`. -/
def TGMessageFlagContainsMention : BitVec 32 := 64

/-- `TGMessageFlagForceReply`. -/
def TGMessageFlagForceReply : BitVec 32 := 1 <<< 7

/-- `TGMessageFlagLayerMaskExtended`. -/
def TGMessageFlagLayerMaskExtended : BitVec 32 := 0xff <<< 8

/-- `TGMessageFlagSilent`. -/
def TGMessageFlagSilent : BitVec 32 := 1 <<< 16

/-- `TGMessageFlagEdited`. -/
def TGMessageFlagEdited : BitVec 32 := 1 <<< 17

/-- An `int` where an `int64_t` is needed. -/
def wide (value : BitVec 32) : BitVec 64 := value.signExtend 64

/-- A layer of a secret message. -/
abbrev Layer := {layer : ℕ // 1 ≤ layer ∧ layer ≤ 286}

/-- The setter of a flag: the bits of its mask are set, or the others are kept. -/
def setFlag (mask : BitVec 32) (value : Bool) (flags : BitVec 64) : BitVec 64 :=
  if value then flags ||| wide mask else flags &&& wide (~~~mask)

/-- The getter of a flag. -/
def hasFlag (mask : BitVec 32) (flags : BitVec 64) : Bool := flags &&& wide mask ≠ 0

namespace TGMessage

/-- `setIsBroadcast:`. -/
def setIsBroadcast : Bool → BitVec 64 → BitVec 64 := setFlag TGMessageFlagBroadcast

/-- `isBroadcast`. -/
def isBroadcast : BitVec 64 → Bool := hasFlag TGMessageFlagBroadcast

/-- `setForceReply:`, which keeps the bit of its own mask where the others are to be kept. -/
def setForceReply (forceReply : Bool) (flags : BitVec 64) : BitVec 64 :=
  if forceReply then flags ||| wide TGMessageFlagForceReply
  else flags &&& wide TGMessageFlagForceReply

/-- `forceReply`. -/
def forceReply : BitVec 64 → Bool := hasFlag TGMessageFlagForceReply

/-- `setIsSilent:`. -/
def setIsSilent : Bool → BitVec 64 → BitVec 64 := setFlag TGMessageFlagSilent

/-- `isSilent`. -/
def isSilent : BitVec 64 → Bool := hasFlag TGMessageFlagSilent

/-- `setIsEdited:`. -/
def setIsEdited : Bool → BitVec 64 → BitVec 64 := setFlag TGMessageFlagEdited

/-- `isEdited`. -/
def isEdited : BitVec 64 → Bool := hasFlag TGMessageFlagEdited

/-- `setContainsMention:`. -/
def setContainsMention : Bool → BitVec 64 → BitVec 64 := setFlag TGMessageFlagContainsMention

/-- `containsMention`. -/
def containsMention : BitVec 64 → Bool := hasFlag TGMessageFlagContainsMention

/-- `MIN((int32_t)layer, 31)`. -/
def layerLow (layer : ℕ) : BitVec 32 :=
  if (BitVec.ofNat 32 layer).slt 31 then BitVec.ofNat 32 layer else 31

/-- The part of the layer above `layerLow`. -/
def layerHigh (layer : ℕ) : BitVec 32 := BitVec.ofNat 32 layer - layerLow layer

/-- `setLayer:`. -/
def setLayer (layer : ℕ) (flags : BitVec 64) : BitVec 64 :=
  let flags := (flags &&& wide (~~~TGMessageFlagLayerMask)) |||
    wide ((layerLow layer &&& (1 ||| 2 ||| 4 ||| 8 ||| 16)) <<< 1)
  (flags &&& wide (~~~TGMessageFlagLayerMaskExtended)) |||
    wide ((layerHigh layer &&& 0xff) <<< 8)

/-- The layer of its two groups of bits. -/
def layerOf (low high : BitVec 64) : ℕ :=
  let layerLow := (low.sshiftRight 1).setWidth 32
  let layerHigh := (high.sshiftRight 8).setWidth 32
  let value : BitVec 32 := layerLow + layerHigh
  if value.slt 1 then 1 else value.toNat

/-- `layerFromFlags:`. -/
def layerFromFlags (flags : BitVec 64) : ℕ :=
  layerOf (flags &&& wide TGMessageFlagLayerMask) (flags &&& wide TGMessageFlagLayerMaskExtended)

end TGMessage

/-- A call of a setter. -/
inductive FlagCall where
  | setIsBroadcast (isBroadcast : Bool)
  | setContainsMention (containsMention : Bool)
  | setForceReply (forceReply : Bool)
  | setLayer (layer : Layer)
  | setIsSilent (isSilent : Bool)
  | setIsEdited (isEdited : Bool)
deriving DecidableEq

/-- The word after a call. -/
def FlagCall.step (flags : BitVec 64) : FlagCall → BitVec 64
  | setIsBroadcast isBroadcast => TGMessage.setIsBroadcast isBroadcast flags
  | setContainsMention containsMention => TGMessage.setContainsMention containsMention flags
  | setForceReply forceReply => TGMessage.setForceReply forceReply flags
  | setLayer layer => TGMessage.setLayer layer flags
  | setIsSilent isSilent => TGMessage.setIsSilent isSilent flags
  | setIsEdited isEdited => TGMessage.setIsEdited isEdited flags

/-- The word after a run of calls. -/
def runFlags (flags : BitVec 64) (calls : List FlagCall) : BitVec 64 :=
  calls.foldl FlagCall.step flags

/-! ### The properties -/

/-- What the six properties are read as. -/
structure MessageFlags where
  isBroadcast : Bool
  containsMention : Bool
  forceReply : Bool
  layer : ℕ
  isSilent : Bool
  isEdited : Bool
deriving DecidableEq

/-- The properties of a word. -/
def readFlags (flags : BitVec 64) : MessageFlags where
  isBroadcast := TGMessage.isBroadcast flags
  containsMention := TGMessage.containsMention flags
  forceReply := TGMessage.forceReply flags
  layer := TGMessage.layerFromFlags flags
  isSilent := TGMessage.isSilent flags
  isEdited := TGMessage.isEdited flags

/-- A call sets its own property. -/
def MessageFlags.set (properties : MessageFlags) : FlagCall → MessageFlags
  | .setIsBroadcast isBroadcast => { properties with isBroadcast := isBroadcast }
  | .setContainsMention containsMention => { properties with containsMention := containsMention }
  | .setForceReply forceReply => { properties with forceReply := forceReply }
  | .setLayer layer => { properties with layer := layer }
  | .setIsSilent isSilent => { properties with isSilent := isSilent }
  | .setIsEdited isEdited => { properties with isEdited := isEdited }

/-- The bits of no property. -/
def outside : BitVec 64 := ~~~(0x3ffff : BitVec 64)

/-- A call sets its own property and nothing else. -/
def KeepsOthers (flags : BitVec 64) (call : FlagCall) : Prop :=
  readFlags (call.step flags) = (readFlags flags).set call ∧
    call.step flags &&& outside = flags &&& outside

/-- After the calls, each property is the last one set, or the initial one, and the bits of no
property are the initial ones. -/
def Independent (flags : BitVec 64) (calls : List FlagCall) : Prop :=
  readFlags (runFlags flags calls) = calls.foldl MessageFlags.set (readFlags flags) ∧
    runFlags flags calls &&& outside = flags &&& outside

/-- Nothing is set: the booleans are false, the layer is the first, and the bits of no property are
zero. -/
def NothingSet (flags : BitVec 64) : Prop :=
  readFlags flags = ⟨false, false, false, 1, false, false⟩ ∧ flags &&& outside = 0

/-! ### One call -/

section

variable {flags value : BitVec 64} {mask other : BitVec 32}

theorem wide_not (mask : BitVec 32) : wide (~~~mask) = ~~~wide mask :=
  BitVec.signExtend_not (by decide)

/-- The bits that a flag is given. -/
def flagBits (mask : BitVec 32) (value : Bool) : BitVec 64 := if value then wide mask else 0#64

theorem flagBits_and (mask : BitVec 32) (value : Bool) :
    flagBits mask value &&& wide mask = flagBits mask value := by
  cases value with
  | false => exact BitVec.zero_and
  | true => exact BitVec.and_self

theorem setFlag_eq_put (mask : BitVec 32) (value : Bool) (flags : BitVec 64) :
    setFlag mask value flags = put (wide mask) (flagBits mask value) flags := by
  cases value with
  | false => exact (congrArg (flags &&& ·) (wide_not mask)).trans (and_not_mask _ _)
  | true => exact or_mask _ _

theorem setForceReply_true (flags : BitVec 64) :
    TGMessage.setForceReply true flags =
      put (wide TGMessageFlagForceReply) (flagBits TGMessageFlagForceReply true) flags :=
  or_mask _ _

/-- A flag is read back. -/
theorem hasFlag_put (hmask : wide mask ≠ 0) (value : Bool) (flags : BitVec 64) :
    hasFlag mask (put (wide mask) (flagBits mask value) flags) = value := by
  rw [hasFlag, put_and_self (flagBits_and mask value)]
  cases value with
  | false => exact decide_eq_false fun h => h rfl
  | true => exact decide_eq_true hmask

/-- A flag under another mask stays. -/
theorem hasFlag_put_of_disjoint (hvalue : value &&& wide mask = value)
    (hmask : wide mask &&& wide other = 0#64) :
    hasFlag other (put (wide mask) value flags) = hasFlag other flags := by
  rw [hasFlag, put_and_of_disjoint hvalue hmask, hasFlag]

/-- The layer stays when what is set lies under another mask. -/
theorem layer_put_of_disjoint (hvalue : value &&& wide mask = value)
    (hlow : wide mask &&& wide TGMessageFlagLayerMask = 0#64)
    (hhigh : wide mask &&& wide TGMessageFlagLayerMaskExtended = 0#64) :
    TGMessage.layerFromFlags (put (wide mask) value flags) = TGMessage.layerFromFlags flags := by
  rw [TGMessage.layerFromFlags, put_and_of_disjoint hvalue hlow, put_and_of_disjoint hvalue hhigh,
    TGMessage.layerFromFlags]

/-- The low bits of a layer. -/
def lowBits (layer : ℕ) : BitVec 64 :=
  wide ((TGMessage.layerLow layer &&& (1 ||| 2 ||| 4 ||| 8 ||| 16)) <<< 1)

/-- The high bits of a layer. -/
def highBits (layer : ℕ) : BitVec 64 := wide ((TGMessage.layerHigh layer &&& 0xff) <<< 8)

theorem setLayer_eq_put (layer : ℕ) (flags : BitVec 64) :
    TGMessage.setLayer layer flags = put (wide TGMessageFlagLayerMaskExtended) (highBits layer)
      (put (wide TGMessageFlagLayerMask) (lowBits layer) flags) := by
  rw [TGMessage.setLayer, wide_not, wide_not]
  rfl

/-- The bits of a layer lie under their masks, and the layer is read from them. -/
theorem layer_bits (layer : Layer) :
    lowBits layer &&& wide TGMessageFlagLayerMask = lowBits layer ∧
      highBits layer &&& wide TGMessageFlagLayerMaskExtended = highBits layer ∧
      TGMessage.layerOf (lowBits layer) (highBits layer) = layer := by
  have h : ∀ n : Fin 287, 1 ≤ n.val →
      lowBits n &&& wide TGMessageFlagLayerMask = lowBits n ∧
        highBits n &&& wide TGMessageFlagLayerMaskExtended = highBits n ∧
        TGMessage.layerOf (lowBits n) (highBits n) = n := by
    decide +kernel
  exact h ⟨layer, by have := layer.2; omega⟩ layer.2.1

end

/-- The properties when a flag is set to a value. -/
def MessageFlags.withFlag (properties : MessageFlags) (mask : BitVec 32) (value : Bool) :
    MessageFlags where
  isBroadcast := if TGMessageFlagBroadcast = mask then value else properties.isBroadcast
  containsMention :=
    if TGMessageFlagContainsMention = mask then value else properties.containsMention
  forceReply := if TGMessageFlagForceReply = mask then value else properties.forceReply
  layer := properties.layer
  isSilent := if TGMessageFlagSilent = mask then value else properties.isSilent
  isEdited := if TGMessageFlagEdited = mask then value else properties.isEdited

/-- The masks of the five flags. -/
def flagMasks : List (BitVec 32) :=
  [TGMessageFlagBroadcast, TGMessageFlagContainsMention, TGMessageFlagForceReply,
    TGMessageFlagSilent, TGMessageFlagEdited]

/-- What a flag is read as when one of the flags is set. -/
theorem hasFlag_put_ite (hmask : mask ∈ flagMasks) (hother : other ∈ flagMasks) (value : Bool)
    (flags : BitVec 64) : hasFlag other (put (wide mask) (flagBits mask value) flags) =
      if other = mask then value else hasFlag other flags := by
  have hdisjoint : other ≠ mask → wide mask &&& wide other = 0#64 := by
    simp only [flagMasks, List.mem_cons, List.not_mem_nil, or_false] at hmask hother
    rcases hmask with rfl | rfl | rfl | rfl | rfl <;>
      rcases hother with rfl | rfl | rfl | rfl | rfl <;> decide
  by_cases hsame : other = mask
  · subst hsame
    have hne : wide other ≠ 0 := by
      simp only [flagMasks, List.mem_cons, List.not_mem_nil, or_false] at hmask
      rcases hmask with rfl | rfl | rfl | rfl | rfl <;> decide
    rw [if_pos rfl, hasFlag_put hne]
  · rw [if_neg hsame, hasFlag_put_of_disjoint (flagBits_and mask value) (hdisjoint hsame)]

/-- Setting a flag is read as setting it, and the bits of no property stay. -/
theorem keepsOthers_of_flag (mask : BitVec 32) (value : Bool) {call : FlagCall}
    {flags : BitVec 64} (hmask : mask ∈ flagMasks)
    (hstep : call.step flags = put (wide mask) (flagBits mask value) flags)
    (hset : (readFlags flags).set call = (readFlags flags).withFlag mask value) :
    KeepsOthers flags call := by
  have hbits := flagBits_and mask value
  have hclear : wide mask &&& wide TGMessageFlagLayerMask = 0#64 ∧
      wide mask &&& wide TGMessageFlagLayerMaskExtended = 0#64 ∧
      wide mask &&& outside = 0#64 := by
    simp only [flagMasks, List.mem_cons, List.not_mem_nil, or_false] at hmask
    rcases hmask with rfl | rfl | rfl | rfl | rfl <;> decide
  rw [KeepsOthers, hstep, hset]
  refine ⟨?_, put_and_of_disjoint hbits hclear.2.2⟩
  have hread := fun other (hother : other ∈ flagMasks) =>
    hasFlag_put_ite hmask hother value flags
  rw [readFlags, readFlags, MessageFlags.withFlag, TGMessage.isBroadcast,
    TGMessage.containsMention, TGMessage.forceReply, TGMessage.isSilent, TGMessage.isEdited,
    hread, hread, hread, hread, hread, layer_put_of_disjoint hbits hclear.1 hclear.2.1]
  all_goals simp only [flagMasks, List.mem_cons, true_or, or_true]

/-- **A call sets its property and leaves the others alone**, if it does not turn the force reply
flag off. -/
theorem keepsOthers_of_ne {call : FlagCall} (hcall : call ≠ .setForceReply false)
    (flags : BitVec 64) : KeepsOthers flags call := by
  cases call with
  | setIsBroadcast value =>
      refine keepsOthers_of_flag TGMessageFlagBroadcast value ?_ ?_ rfl
      · simp only [flagMasks, List.mem_cons, true_or]
      · exact setFlag_eq_put _ value flags
  | setContainsMention value =>
      refine keepsOthers_of_flag TGMessageFlagContainsMention value ?_ ?_ rfl
      · simp only [flagMasks, List.mem_cons, true_or, or_true]
      · exact setFlag_eq_put _ value flags
  | setForceReply value =>
      obtain rfl : value = true := by
        cases value with
        | false => exact absurd rfl hcall
        | true => rfl
      refine keepsOthers_of_flag TGMessageFlagForceReply true ?_ ?_ rfl
      · simp only [flagMasks, List.mem_cons, true_or, or_true]
      · exact setForceReply_true flags
  | setLayer layer =>
      obtain ⟨hlow, hhigh, hlayer⟩ := layer_bits layer
      rw [KeepsOthers, FlagCall.step, setLayer_eq_put]
      refine ⟨?_, ?_⟩
      · have hread : TGMessage.layerFromFlags (put (wide TGMessageFlagLayerMaskExtended)
            (highBits layer) (put (wide TGMessageFlagLayerMask) (lowBits layer) flags)) =
              layer := by
          rw [TGMessage.layerFromFlags, put_and_self hhigh, put_and_of_disjoint hhigh (by decide),
            put_and_self hlow, hlayer]
        simp (disch := decide) only [readFlags, MessageFlags.set, TGMessage.isBroadcast,
          TGMessage.containsMention, TGMessage.forceReply, TGMessage.isSilent, TGMessage.isEdited,
          hasFlag_put_of_disjoint hhigh, hasFlag_put_of_disjoint hlow, hread]
      · rw [put_and_of_disjoint hhigh (by decide), put_and_of_disjoint hlow (by decide)]
  | setIsSilent value =>
      refine keepsOthers_of_flag TGMessageFlagSilent value ?_ ?_ rfl
      · simp only [flagMasks, List.mem_cons, true_or, or_true]
      · exact setFlag_eq_put _ value flags
  | setIsEdited value =>
      refine keepsOthers_of_flag TGMessageFlagEdited value ?_ ?_ rfl
      · simp only [flagMasks, List.mem_cons, true_or, or_true]
      · exact setFlag_eq_put _ value flags

/-- What is read of a word without bits. -/
theorem readFlags_zero : readFlags 0 = ⟨false, false, false, 1, false, false⟩ := by decide

/-- The force reply flag is turned off without damage when nothing is set, and only then. -/
theorem keepsOthers_setForceReply_iff (flags : BitVec 64) :
    KeepsOthers flags (.setForceReply false) ↔ NothingSet flags := by
  have hstep : FlagCall.step flags (.setForceReply false) =
      flags &&& wide TGMessageFlagForceReply := rfl
  have hzero (h : TGMessage.forceReply flags = false) :
      flags &&& wide TGMessageFlagForceReply = 0 := not_ne_iff.mp (of_decide_eq_false h)
  rw [KeepsOthers, NothingSet, hstep]
  constructor
  · rintro ⟨hread, houtside⟩
    have hkept : TGMessage.forceReply (flags &&& wide TGMessageFlagForceReply) = false :=
      congrArg MessageFlags.forceReply hread
    have hforce : TGMessage.forceReply flags = false := by
      rwa [TGMessage.forceReply, hasFlag, BitVec.and_assoc, BitVec.and_self] at hkept
    rw [hzero hforce] at hread houtside
    refine ⟨?_, houtside.symm.trans BitVec.zero_and⟩
    rw [← readFlags_zero, hread, MessageFlags.set, readFlags, hforce]
  · rintro ⟨hread, houtside⟩
    rw [hzero (congrArg MessageFlags.forceReply hread), readFlags_zero, hread, houtside]
    exact ⟨rfl, BitVec.zero_and⟩

/-! ### Runs -/

/-- A run stays right for one more call if this call keeps the other properties. -/
theorem independent_snoc {flags : BitVec 64} {calls : List FlagCall}
    (h : Independent flags calls) (call : FlagCall) :
    Independent flags (calls ++ [call]) ↔ KeepsOthers (runFlags flags calls) call := by
  have hrun : runFlags flags (calls ++ [call]) = call.step (runFlags flags calls) := by
    rw [runFlags, List.foldl_append]
    rfl
  have hset : (calls ++ [call]).foldl MessageFlags.set (readFlags flags) =
      (readFlags (runFlags flags calls)).set call := by
    rw [List.foldl_append, h.1]
    rfl
  rw [Independent, KeepsOthers, hrun, hset, h.2]

/-- **The properties are independent in exactly the runs that turn the force reply flag off only
when nothing is set.** -/
theorem flags_independent_iff (flags : BitVec 64) (calls : List FlagCall) :
    (∀ made, made <+: calls → Independent flags made) ↔
      ∀ before after, calls = before ++ .setForceReply false :: after →
        NothingSet (runFlags flags before) := by
  constructor
  · rintro h before after rfl
    have hbefore := h before (List.prefix_append _ _)
    have hcall := h (before ++ [.setForceReply false]) ⟨after, (List.append_cons _ _ _).symm⟩
    exact (keepsOthers_setForceReply_iff _).mp ((independent_snoc hbefore _).mp hcall)
  · intro h made
    induction made using List.reverseRecOn with
    | nil => exact fun _ => ⟨rfl, rfl⟩
    | append_singleton made call ih =>
        rintro ⟨after, rfl⟩
        have hmade := ih ⟨call :: after, List.append_cons _ _ _⟩
        rw [independent_snoc hmade]
        by_cases hcall : call = .setForceReply false
        · subst hcall
          exact (keepsOthers_setForceReply_iff _).mpr
            (h made after (List.append_cons _ _ _).symm)
        · exact keepsOthers_of_ne hcall _

/-- Turning the force reply flag off takes the broadcast flag away. -/
theorem flags_independent_forceReply :
    ¬ ∀ (flags : BitVec 64) (calls : List FlagCall), Independent flags calls := by
  intro h
  have hread := (h 0 [.setIsBroadcast true, .setForceReply false]).1
  exact absurd hread (by decide)

end Telegraph.Messages
