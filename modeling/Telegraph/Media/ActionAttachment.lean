import Telegraph.Media.ImageAttachment

/-!
# Action Attachments

`TGActionMediaAttachment`, the action of a service message. Its data are a dictionary; which entries
are stored, and how, depends on the type of the action. The photo of a changed picture is written
if there is one, and read in any case.

## Main results

* `TGActionMediaAttachment.appends_serialize`: an action appends the bytes of its stored entries.
* `TGActionMediaAttachment.reads_parse`: **these bytes are read as an action with the same stored
  entries when these are kept**: numbers are `int`s, ids of a new chat are not `0`, and there is a
  photo.
* `TGActionMediaAttachment.yields_parse`: whatever is read, the entries that are given are kept.
-/

namespace Telegraph.Media

open Bytes Codec
open Telegraph.Coder (utf8)

/-! ### Types and data -/

/-- What the branches of `serialize:` and `parseMediaAttachment:` do; types that are not named here
have no data. -/
inductive ActionBranch where
  | chatMember
  | joinedByLink
  | title
  | chat
  | photo
  | contactRequest
  | messageLifetime
  | commentsStatus
  | channelInviter
  | groupMigratedTo
  | channelMigratedFrom
  | gameScore
  | phoneCall
  | paymentSent
  | nothing
deriving DecidableEq

/-- The branch of a `TGMessageAction`. -/
def branchOf (actionType : BitVec 32) : ActionBranch :=
  match actionType.toNat with
  | 1 => .title               -- TGMessageActionChatEditTitle
  | 2 => .chatMember          -- TGMessageActionChatAddMember
  | 3 => .chatMember          -- TGMessageActionChatDeleteMember
  | 4 => .chat                -- TGMessageActionCreateChat
  | 5 => .photo               -- TGMessageActionChatEditPhoto
  | 6 => .contactRequest      -- TGMessageActionContactRequest
  | 9 => .photo               -- TGMessageActionUserChangedPhoto
  | 13 => .messageLifetime    -- TGMessageActionEncryptedChatMessageLifetime
  | 16 => .chat               -- TGMessageActionCreateBroadcastList
  | 17 => .joinedByLink       -- TGMessageActionJoinedByLink
  | 18 => .title              -- TGMessageActionChannelCreated
  | 19 => .commentsStatus     -- TGMessageActionChannelCommentsStatusChanged
  | 20 => .channelInviter     -- TGMessageActionChannelInviter
  | 21 => .groupMigratedTo    -- TGMessageActionGroupMigratedTo
  | 24 => .channelMigratedFrom -- TGMessageActionChannelMigratedFrom
  | 27 => .gameScore          -- TGMessageActionGameScore
  | 28 => .phoneCall          -- TGMessageActionPhoneCall
  | 29 => .paymentSent        -- TGMessageActionPaymentSent
  | _ => .nothing

/-- `actionData`, entry by entry; `nil` has none. -/
structure ActionData (Object : Type) where
  uid : Option NSNumber
  uids : Option (List NSNumber)
  inviterId : Option NSNumber
  title : Option String
  photo : Option (TGImageMediaAttachment Object)
  hasPhone : Option NSNumber
  messageLifetime : Option NSNumber
  enabled : Option NSNumber
  channelId : Option NSNumber
  groupId : Option NSNumber
  gameId : Option NSNumber
  score : Option NSNumber
  callId : Option NSNumber
  reason : Option NSNumber
  duration : Option NSNumber
  currency : Option String
  totalAmount : Option NSNumber

/-- `TGActionMediaAttachment`. -/
structure TGActionMediaAttachment (Object : Type) where
  actionType : BitVec 32
  actionData : ActionData Object

/-- No data. -/
def ActionData.empty {Object : Type} : ActionData Object :=
  ⟨none, none, none, none, none, none, none, none, none, none, none, none, none, none, none, none,
    none⟩

/-- An entry that is a number; the messages to `nil` give `0`. -/
def number (entry : Option NSNumber) : NSNumber := entry.getD 0

/-- `boolValue`. -/
def NSNumber.boolValue (number : NSNumber) : Bool := number ≠ 0

/-- The `NSNumber` of a `bool`. -/
def NSNumber.ofBool (value : Bool) : NSNumber := if value then 1 else 0

/-- What is stored of the data. -/
inductive StoredAction (Object : Type) where
  | chatMember (uid : NSNumber) (uids : List NSNumber)
  | number (value : NSNumber)
  | title (title : String)
  | chat (title : String) (uids : List NSNumber)
  | photo (photo : Option (StoredImage Object))
  | contactRequest (hasPhone : Bool)
  | commentsStatus (enabled : Bool)
  | channelMigratedFrom (title : String) (groupId : NSNumber)
  | gameScore (gameId score : NSNumber)
  | phoneCall (callId reason duration : NSNumber)
  | paymentSent (currency : String) (totalAmount : NSNumber)
  | nothing

variable {Object Attribute Other : Type} (runtime : Runtime Object Attribute Other)

/-- The stored part of the data of an action. -/
def ActionData.stored (data : ActionData Object) : ActionBranch → StoredAction Object
  | .chatMember => .chatMember (number data.uid) (data.uids.getD [])
  | .joinedByLink => .number (number data.inviterId)
  | .title => .title (text data.title)
  | .chat => .chat (text data.title) (data.uids.getD [])
  | .photo => .photo (data.photo.map (TGImageMediaAttachment.stored runtime))
  | .contactRequest => .contactRequest (number data.hasPhone).boolValue
  | .messageLifetime => .number (number data.messageLifetime)
  | .commentsStatus => .commentsStatus (number data.enabled).boolValue
  | .channelInviter => .number (number data.uid)
  | .groupMigratedTo => .number (number data.channelId)
  | .channelMigratedFrom => .channelMigratedFrom (text data.title) (number data.groupId)
  | .gameScore => .gameScore (number data.gameId) (number data.score)
  | .phoneCall => .phoneCall (number data.callId) (number data.reason) (number data.duration)
  | .paymentSent => .paymentSent (text data.currency) (number data.totalAmount)
  | .nothing => .nothing

/-- The entries are kept by the format: numbers are `int`s, ids of a new chat are not `0`, and a
photo is there. -/
def StoredAction.Kept : StoredAction Object → Prop
  | .chatMember uid uids => uid.Fits ∧ ∀ uid ∈ uids, uid.Fits
  | .number value => value.Fits
  | .chat _ uids => ∀ uid ∈ uids, uid.Fits ∧ uid ≠ 0
  | .photo image => image ≠ none
  | .channelMigratedFrom _ groupId => groupId.Fits
  | .gameScore gameId score => gameId.Fits ∧ score.Fits
  | .phoneCall _ reason duration => reason.Fits ∧ duration.Fits
  | .paymentSent _ totalAmount => totalAmount.Fits
  | .title _ | .contactRequest _ | .commentsStatus _ | .nothing => True

/-! ### The writer and the parser -/

/-- `uids`, behind their count. -/
def appendUids (uids : List NSNumber) : Writer := do
  appendInt (BitVec.ofNat 32 uids.length)
  uids.forM fun uid => appendInt uid.intValue

/-- The photo, if there is one. -/
def appendPhoto : Option (TGImageMediaAttachment Object) → Writer
  | none => pure ()
  | some photo => photo.serialize runtime

/-- What the branches of `serialize:` write behind the type. -/
def ActionData.serialize (data : ActionData Object) : ActionBranch → Writer
  | .chatMember => do
      appendInt (number data.uid).intValue
      appendUids (data.uids.getD [])
  | .joinedByLink => appendInt (number data.inviterId).intValue
  | .title => appendText data.title
  | .chat => do
      appendText data.title
      appendUids (data.uids.getD [])
  | .photo => appendPhoto runtime data.photo
  | .contactRequest => appendInt (if (number data.hasPhone).boolValue then 1 else 0)
  | .messageLifetime => appendInt (number data.messageLifetime).intValue
  | .commentsStatus => appendByte (flag (number data.enabled).boolValue)
  | .channelInviter => appendInt (number data.uid).intValue
  | .groupMigratedTo => appendInt (number data.channelId).intValue
  | .channelMigratedFrom => do
      appendText data.title
      appendInt (number data.groupId).intValue
  | .gameScore => do
      appendInt (number data.gameId).intValue
      appendInt (number data.score).intValue
  | .phoneCall => do
      appendLong (number data.callId)
      appendInt (number data.reason).intValue
      appendInt (number data.duration).intValue
  | .paymentSent => do
      appendText data.currency
      appendInt (number data.totalAmount).intValue
  | .nothing => pure ()

/-- An `int` as a number. -/
def readNumber : Parser NSNumber := do
  let value ← readInt
  pure (.ofInt value)

/-- The ids of members, as long as there is data left and they are not all read. -/
def readMembers : ℕ → BitVec 32 → Parser (List NSNumber)
  | 0, _ => pure []
  | count + 1, dataLength =>
      if 0 < dataLength.toInt then do
        let listUid ← readNumber
        let uids ← readMembers count (dataLength - 4)
        pure (listUid :: uids)
      else pure []

/-- The count of the members, if it is there, and their ids. -/
def readMemberList (dataLength : BitVec 32) : Parser (List NSNumber) :=
  if 4 ≤ dataLength.toInt then do
    let uidsCount ← readInt
    readMembers uidsCount.toInt.toNat (dataLength - 4)
  else pure []

/-- The ids of a new chat without those that are `0`. An array has no negative capacity. -/
def readUids : Parser (List NSNumber) := do
  let count ← readInt
  if count.toInt < 0 then fun _ => none
  else do
    let uids ← times readNumber count.toInt.toNat
    pure (uids.filter (· ≠ 0))

/-- A string for a dictionary, which does not take `nil`. -/
def readEntry : Parser String := do
  let string ← readText runtime
  match string with
  | none => fun _ => none
  | some string => pure string

/-- A title; what is no string is the empty one. -/
def readTitle : Parser String := do
  let title ← readText runtime
  pure (text title)

/-- What the branches of `parseMediaAttachment:` read behind the type. -/
def readData (dataLength : BitVec 32) : ActionBranch → Parser (ActionData Object)
  | .chatMember => do
      let uid ← readNumber
      let uids ← readMemberList (dataLength - 4)
      pure { ActionData.empty with uid := some uid, uids := if uids = [] then none else some uids }
  | .joinedByLink => do
      let uid ← readNumber
      pure { ActionData.empty with inviterId := some uid }
  | .title => do
      let title ← readTitle runtime
      pure { ActionData.empty with title := some title }
  | .chat => do
      let title ← readTitle runtime
      let uids ← readUids
      pure { ActionData.empty with title := some title, uids := some uids }
  | .photo => do
      let photo ← TGImageMediaAttachment.parse runtime
      pure { (ActionData.empty : ActionData Object) with photo := some photo }
  | .contactRequest => do
      let hasPhone ← readInt
      pure { ActionData.empty with hasPhone := some (.ofBool (hasPhone ≠ 0)) }
  | .messageLifetime => do
      let messageLifetime ← readNumber
      pure { ActionData.empty with messageLifetime := some messageLifetime }
  | .commentsStatus => do
      let enabled ← readByte
      pure { ActionData.empty with enabled := some (.ofBool (enabled ≠ 0)) }
  | .channelInviter => do
      let uid ← readNumber
      pure { ActionData.empty with uid := some uid }
  | .groupMigratedTo => do
      let channelId ← readNumber
      pure { ActionData.empty with channelId := some channelId }
  | .channelMigratedFrom => do
      let title ← readEntry runtime
      let groupId ← readNumber
      pure { ActionData.empty with groupId := some groupId, title := some title }
  | .gameScore => do
      let gameId ← readNumber
      let score ← readNumber
      pure { ActionData.empty with gameId := some gameId, score := some score }
  | .phoneCall => do
      let callId ← readLong
      let reason ← readNumber
      let duration ← readNumber
      pure { ActionData.empty with
        callId := some callId, reason := some reason, duration := some duration }
  | .paymentSent => do
      let currency ← readEntry runtime
      let totalAmount ← readNumber
      pure { ActionData.empty with currency := some currency, totalAmount := some totalAmount }
  | .nothing => pure ActionData.empty

namespace TGActionMediaAttachment

/-- `serialize:`. -/
def serialize (self : TGActionMediaAttachment Object) : Writer :=
  withDataLength do
    appendInt self.actionType
    self.actionData.serialize runtime (branchOf self.actionType)

/-- `parseMediaAttachment:`. -/
def parse : Parser (TGActionMediaAttachment Object) := do
  let dataLength ← readInt
  let actionType ← readInt
  let actionData ← readData runtime (dataLength - 4) (branchOf actionType)
  pure ⟨actionType, actionData⟩

/-- What is stored of an action. -/
def stored (self : TGActionMediaAttachment Object) : BitVec 32 × StoredAction Object :=
  (self.actionType, self.actionData.stored runtime (branchOf self.actionType))

end TGActionMediaAttachment

/-! ### What is written -/

/-- A number as an `int`. -/
def numberBytes (number : NSNumber) : List UInt8 := toLE 4 number.intValue.toNat

/-- Ids behind their count. -/
def uidsBytes (uids : List NSNumber) : List UInt8 :=
  toLE 4 uids.length ++ uids.flatMap numberBytes

/-- The bytes of stored entries. -/
def StoredAction.bytes : StoredAction Object → List UInt8
  | .chatMember uid uids => numberBytes uid ++ uidsBytes uids
  | .number value => numberBytes value
  | .title string => counted (utf8 string)
  | .chat string uids => counted (utf8 string) ++ uidsBytes uids
  | .photo none => []
  | .photo (some image) => image.bytes runtime
  | .contactRequest hasPhone => toLE 4 (if hasPhone then (1 : BitVec 32) else 0).toNat
  | .commentsStatus enabled => [flag enabled]
  | .channelMigratedFrom string groupId => counted (utf8 string) ++ numberBytes groupId
  | .gameScore gameId score => numberBytes gameId ++ numberBytes score
  | .phoneCall callId reason duration =>
      toLE 8 callId.toNat ++ (numberBytes reason ++ numberBytes duration)
  | .paymentSent currency totalAmount => counted (utf8 currency) ++ numberBytes totalAmount
  | .nothing => []

variable {bound : ℕ}

theorem appends_uids (uids : List NSNumber) : Appends bound (appendUids uids) (uidsBytes uids) :=
  (appends_length _).seq (Appends.forM uids fun _ _ => appends_int _)

/-- A text appends its characters. -/
theorem appends_characters (string : Option String) :
    Appends bound (appendText string) (counted (utf8 (text string))) := by
  rw [← utf8Data_eq]
  exact appends_text string

/-- A photo appends its bytes, and nothing appends none. -/
theorem appends_photo (photo : Option (TGImageMediaAttachment Object)) :
    Appends 2147483648 (appendPhoto runtime photo)
      ((StoredAction.photo (photo.map (TGImageMediaAttachment.stored runtime))).bytes runtime) := by
  cases photo with
  | none => exact Appends.nil
  | some photo => exact photo.appends_serialize runtime

/-- The data append the bytes of what is stored of them. -/
theorem ActionData.appends_serialize (data : ActionData Object) (branch : ActionBranch) :
    Appends 2147483648 (data.serialize runtime branch)
      ((data.stored runtime branch).bytes runtime) := by
  cases branch with
  | chatMember => exact (appends_int _).seq (appends_uids _)
  | joinedByLink => exact appends_int _
  | title => exact appends_characters _
  | chat => exact (appends_characters _).seq (appends_uids _)
  | photo => exact appends_photo runtime data.photo
  | contactRequest => exact appends_int _
  | messageLifetime => exact appends_int _
  | commentsStatus => exact appends_byte _
  | channelInviter => exact appends_int _
  | groupMigratedTo => exact appends_int _
  | channelMigratedFrom => exact (appends_characters _).seq (appends_int _)
  | gameScore => exact (appends_int _).seq (appends_int _)
  | phoneCall => exact (appends_long _).seq ((appends_int _).seq (appends_int _))
  | paymentSent => exact (appends_characters _).seq (appends_int _)
  | nothing => exact Appends.nil

/-! ### What is read -/

/-- A number that is an `int` is read back. -/
theorem reads_number {value : NSNumber} (h : value.Fits) :
    Reads readNumber (numberBytes value) value := by
  have hread : Reads readNumber (numberBytes value) (.ofInt value.intValue) :=
    (reads_int value.intValue).last
  rwa [NSNumber.ofInt_intValue h] at hread

/-- Members are read back, when the data that is left is theirs. -/
theorem reads_members {uids : List NSNumber} (h : ∀ uid ∈ uids, uid.Fits)
    (hlength : 4 * uids.length < 2147483648) :
    Reads (readMembers uids.length (BitVec.ofNat 32 (4 * uids.length)))
      (uids.flatMap numberBytes) uids := by
  induction uids with
  | nil => exact Reads.pure []
  | cons uid uids ih =>
      obtain ⟨huid, huids⟩ := List.forall_mem_cons.mp h
      rw [List.length_cons] at hlength
      have hleft : BitVec.ofNat 32 (4 * (uids.length + 1)) - 4 =
          BitVec.ofNat 32 (4 * uids.length) := by bv_omega
      have hpositive : 0 < (BitVec.ofNat 32 (4 * (uids.length + 1))).toInt := by
        rw [toInt_length hlength]
        omega
      rw [List.length_cons, readMembers, if_pos hpositive, hleft, List.flatMap_cons]
      exact (reads_number huid).bind (ih huids (by omega)).last

/-- The list of the members is read back. -/
theorem reads_memberList {uids : List NSNumber} (h : ∀ uid ∈ uids, uid.Fits)
    (hlength : 4 + 4 * uids.length < 2147483648) :
    Reads (readMemberList (BitVec.ofNat 32 (4 + 4 * uids.length))) (uidsBytes uids) uids := by
  have hleft : BitVec.ofNat 32 (4 + 4 * uids.length) - 4 =
      BitVec.ofNat 32 (4 * uids.length) := by bv_omega
  have hthere : 4 ≤ (BitVec.ofNat 32 (4 + 4 * uids.length)).toInt := by
    rw [toInt_length hlength]
    omega
  rw [readMemberList, if_pos hthere, hleft]
  refine (reads_length _).bind ?_
  rw [toInt_length (by omega), Int.toNat_natCast]
  exact reads_members h (by omega)

/-- The ids of a new chat are read back. -/
theorem reads_uids {uids : List NSNumber} (h : ∀ uid ∈ uids, uid.Fits ∧ uid ≠ 0)
    (hlength : uids.length < 2147483648) : Reads readUids (uidsBytes uids) uids := by
  have hkept : (uids.map id).filter (· ≠ 0) = uids := by
    rw [List.map_id, List.filter_eq_self]
    exact fun uid huid => decide_eq_true (h uid huid).2
  have htimes : Reads (times readNumber uids.length) (uids.flatMap numberBytes) (uids.map id) :=
    Reads.times uids fun uid huid => reads_number (h uid huid).1
  refine (reads_length _).bind ?_
  rw [toInt_length hlength, if_neg (by omega), Int.toNat_natCast]
  have hread := htimes.last (f := fun uids => uids.filter (· ≠ 0))
  rwa [hkept] at hread

theorem reads_entry {string : String} (h : (utf8 string).length < 2147483648) :
    Reads (readEntry runtime) (counted (utf8 string)) string := by
  have hread : Reads (readEntry runtime) (counted (utf8 string) ++ []) string :=
    (reads_text runtime h).bind (Reads.pure string)
  rwa [List.append_nil] at hread

theorem reads_title {string : String} (h : (utf8 string).length < 2147483648) :
    Reads (readTitle runtime) (counted (utf8 string)) string :=
  (reads_text runtime h).last

@[simp] theorem length_numberBytes (value : NSNumber) : (numberBytes value).length = 4 :=
  length_toLE 4 _

/-- Four bytes for the count and for each id. -/
@[simp] theorem length_uidsBytes (uids : List NSNumber) :
    (uidsBytes uids).length = 4 + 4 * uids.length := by
  have hnumbers : (uids.flatMap numberBytes).length = 4 * uids.length := by
    induction uids with
    | nil => rfl
    | cons uid uids ih =>
        rw [List.flatMap_cons, List.length_append, ih, length_numberBytes, List.length_cons]
        omega
  rw [uidsBytes, List.length_append, length_toLE, hnumbers]

theorem NSNumber.boolValue_ofBool (value : Bool) : (NSNumber.ofBool value).boolValue = value := by
  cases value <;> rfl

/-- **Kept entries are read back.** -/
theorem reads_data (data : ActionData Object) (branch : ActionBranch)
    (hkept : (data.stored runtime branch).Kept)
    (h : ((data.stored runtime branch).bytes runtime).length < 2147483648) :
    ∃ parsed, Reads (readData runtime
        (BitVec.ofNat 32 ((data.stored runtime branch).bytes runtime).length) branch)
        ((data.stored runtime branch).bytes runtime) parsed ∧
      parsed.stored runtime branch = data.stored runtime branch := by
  cases branch with
  | chatMember =>
      obtain ⟨huid, huids⟩ := hkept
      have hlength : ((data.stored runtime .chatMember).bytes runtime).length =
          4 + (4 + 4 * (data.uids.getD []).length) := by
        rw [ActionData.stored, StoredAction.bytes, List.length_append, length_numberBytes,
          length_uidsBytes]
      have hleft : BitVec.ofNat 32 (4 + (4 + 4 * (data.uids.getD []).length)) - 4 =
          BitVec.ofNat 32 (4 + 4 * (data.uids.getD []).length) := by bv_omega
      rw [hlength] at h ⊢
      have hmembers : Reads (readMemberList
          (BitVec.ofNat 32 (4 + (4 + 4 * (data.uids.getD []).length)) - 4))
          (uidsBytes (data.uids.getD [])) (data.uids.getD []) := by
        rw [hleft]
        exact reads_memberList huids (by omega)
      refine ⟨_, (reads_number huid).bind hmembers.last, ?_⟩
      have huidsKept : (if data.uids.getD [] = [] then none
          else some (data.uids.getD [])).getD [] = data.uids.getD [] := by
        split
        · next hempty => exact hempty.symm
        · rfl
      exact congrArg (StoredAction.chatMember _) huidsKept
  | joinedByLink => exact ⟨_, (reads_number hkept).last, rfl⟩
  | title =>
      rw [ActionData.stored, StoredAction.bytes, length_counted] at h
      exact ⟨_, (reads_title runtime (by omega)).last, rfl⟩
  | chat =>
      rw [ActionData.stored, StoredAction.bytes, List.length_append, length_counted,
        length_uidsBytes] at h
      exact ⟨_, (reads_title runtime (by omega)).bind (reads_uids hkept (by omega)).last, rfl⟩
  | photo =>
      rw [ActionData.stored] at hkept h ⊢
      cases hphoto : data.photo with
      | none => exact absurd (by rw [hphoto]; rfl) hkept
      | some photo =>
          rw [hphoto] at h
          obtain ⟨parsed, hread, hstored⟩ := photo.reads_parse runtime h
          exact ⟨_, hread.last, congrArg (fun image => StoredAction.photo (some image)) hstored⟩
  | contactRequest =>
      refine ⟨_, (reads_int _).last, congrArg StoredAction.contactRequest ?_⟩
      exact (NSNumber.boolValue_ofBool _).trans (by cases (number data.hasPhone).boolValue <;> rfl)
  | messageLifetime => exact ⟨_, (reads_number hkept).last, rfl⟩
  | commentsStatus =>
      refine ⟨_, (reads_byte _).last, congrArg StoredAction.commentsStatus ?_⟩
      exact (NSNumber.boolValue_ofBool _).trans (TGImageMediaAttachment.flag_ne_zero _)
  | channelInviter => exact ⟨_, (reads_number hkept).last, rfl⟩
  | groupMigratedTo => exact ⟨_, (reads_number hkept).last, rfl⟩
  | channelMigratedFrom =>
      rw [ActionData.stored, StoredAction.bytes, List.length_append, length_counted] at h
      exact ⟨_, (reads_entry runtime (by omega)).bind (reads_number hkept).last, rfl⟩
  | gameScore => exact ⟨_, (reads_number hkept.1).bind (reads_number hkept.2).last, rfl⟩
  | phoneCall =>
      exact ⟨_, (reads_long _).bind ((reads_number hkept.1).bind (reads_number hkept.2).last), rfl⟩
  | paymentSent =>
      rw [ActionData.stored, StoredAction.bytes, List.length_append, length_counted] at h
      exact ⟨_, (reads_entry runtime (by omega)).bind (reads_number hkept).last, rfl⟩
  | nothing => exact ⟨_, Reads.pure _, rfl⟩

/-! ### What is given -/

theorem yields_number : Yields readNumber NSNumber.Fits :=
  Yields.after fun value => Yields.pure (NSNumber.fits_ofInt value)

/-- The ids of members are `int`s. -/
theorem yields_members (count : ℕ) (dataLength : BitVec 32) :
    Yields (readMembers count dataLength) fun uids => ∀ uid ∈ uids, uid.Fits := by
  induction count generalizing dataLength with
  | zero => exact Yields.pure fun uid huid => absurd huid List.not_mem_nil
  | succ count ih =>
      rw [readMembers]
      split
      · exact yields_number.bind fun uid huid => (ih _).bind fun uids huids =>
          Yields.pure (List.forall_mem_cons.mpr ⟨huid, huids⟩)
      · exact Yields.pure fun uid huid => absurd huid List.not_mem_nil

theorem yields_memberList (dataLength : BitVec 32) :
    Yields (readMemberList dataLength) fun uids => ∀ uid ∈ uids, uid.Fits := by
  rw [readMemberList]
  split
  · exact Yields.after fun uidsCount => yields_members _ _
  · exact Yields.pure fun uid huid => absurd huid List.not_mem_nil

/-- The ids of a new chat are `int`s other than `0`. -/
theorem yields_uids : Yields readUids fun uids => ∀ uid ∈ uids, uid.Fits ∧ uid ≠ 0 := by
  refine Yields.after fun count => ?_
  split
  · exact fun stream uids rest h => absurd h (Option.some_ne_none _).symm
  · refine (yields_number.times _).bind fun uids huids => Yields.pure fun uid huid => ?_
    obtain ⟨hmem, hne⟩ := List.mem_filter.mp huid
    exact ⟨huids uid hmem, of_decide_eq_true hne⟩

/-- **Whatever is read, the entries that are given are kept.** -/
theorem yields_data (dataLength : BitVec 32) (branch : ActionBranch) :
    Yields (readData runtime dataLength branch) fun data => (data.stored runtime branch).Kept := by
  cases branch with
  | chatMember =>
      refine yields_number.bind fun uid huid => (yields_memberList _).bind fun uids huids =>
        Yields.pure ⟨huid, ?_⟩
      dsimp only
      split
      · exact fun uid huid => absurd huid List.not_mem_nil
      · exact huids
  | joinedByLink | messageLifetime | channelInviter | groupMigratedTo =>
      exact yields_number.bind fun value hvalue => Yields.pure hvalue
  | title => exact Yields.after fun _ => Yields.pure trivial
  | chat =>
      exact Yields.after fun _ => yields_uids.bind fun uids huids => Yields.pure huids
  | photo => exact Yields.after fun photo => Yields.pure (Option.some_ne_none _)
  | contactRequest | commentsStatus => exact Yields.after fun _ => Yields.pure trivial
  | channelMigratedFrom | paymentSent =>
      exact Yields.after fun _ => yields_number.bind fun value hvalue => Yields.pure hvalue
  | gameScore =>
      exact yields_number.bind fun gameId hgame => yields_number.bind fun score hscore =>
        Yields.pure ⟨hgame, hscore⟩
  | phoneCall =>
      exact Yields.after fun _ => yields_number.bind fun reason hreason =>
        yields_number.bind fun duration hduration => Yields.pure ⟨hreason, hduration⟩
  | nothing => exact Yields.pure trivial

/-! ### Actions -/

namespace TGActionMediaAttachment

/-- The bytes of an action. -/
def bytes (self : TGActionMediaAttachment Object) : List UInt8 :=
  counted (toLE 4 self.actionType.toNat ++ (self.stored runtime).2.bytes runtime)

theorem appends_serialize (self : TGActionMediaAttachment Object) :
    Appends 2147483648 (self.serialize runtime) (self.bytes runtime) :=
  appends_withDataLength ((appends_int _).seq (self.actionData.appends_serialize runtime _))

/-- **An action whose entries are kept is read back.** -/
theorem reads_parse (self : TGActionMediaAttachment Object)
    (hkept : (self.stored runtime).2.Kept) (h : (self.bytes runtime).length < 2147483648) :
    ∃ parsed, Reads (parse runtime) (self.bytes runtime) parsed ∧
      parsed.stored runtime = self.stored runtime := by
  have hlength : (toLE 4 self.actionType.toNat ++ (self.stored runtime).2.bytes runtime).length =
      4 + ((self.stored runtime).2.bytes runtime).length := by
    rw [List.length_append, length_toLE]
  rw [bytes, length_counted, hlength] at h
  have hleft : BitVec.ofNat 32 (4 + ((self.stored runtime).2.bytes runtime).length) - 4 =
      BitVec.ofNat 32 ((self.stored runtime).2.bytes runtime).length := by bv_omega
  obtain ⟨data, hread, hstored⟩ := reads_data runtime self.actionData
    (branchOf self.actionType) hkept
    (show ((self.stored runtime).2.bytes runtime).length < 2147483648 by omega)
  refine ⟨⟨self.actionType, data⟩, ?_, congrArg (Prod.mk self.actionType) hstored⟩
  rw [bytes, counted, hlength]
  refine (reads_length _).bind ((reads_int _).bind ?_)
  rw [hleft]
  exact hread.last

/-- Whatever is read, the entries of the action are kept. -/
theorem yields_parse : Yields (parse runtime) fun parsed => (parsed.stored runtime).2.Kept :=
  Yields.after fun _ => Yields.after fun actionType =>
    (yields_data runtime _ (branchOf actionType)).bind fun _ hdata => Yields.pure hdata

end TGActionMediaAttachment

end Telegraph.Media
