import Telegraph.MtProto.IncomingMessages

/-!
# Progress Tokens

While a packet is still coming in, `transportDecodeProgressToken:` looks into the part that is there
for the id of the request it answers. `findReqMsgId:` knows four kinds of messages and no lengths:
of every other message it takes the signature only, of a `msgs_ack` half of the ids, and it looks
for a signature in the words that come next. What it takes for an `rpc_result` may then be anything.

The header of the payload is read without flags. The ciphers are left out: decrypting the beginning
of a packet gives the beginning of its payload.

## Main results

* `findReqMsgId_follows`: a message is scanned as `visitMessage` says.
* `scanLoop_follows`: the scan of a beginning ends, with nothing or with the first id other than 0
  of what it takes for an `rpc_result`.
* `progressToken_iff`: **when the tokens are ids of requests that the payload answers.**
-/

open Bytes

namespace Telegraph.MtProto

/-! ### The scan -/

/-- The stream with `*reqMsgId` and `*failed`. -/
structure ScanState where
  stream : MTInputStream
  reqMsgId : BitVec 64
  failed : Bool
deriving DecidableEq

/-- The loop over the ids of a `msgs_ack`; each is read as an `int32_t`. -/
def ackLoop : ℕ → ScanState → ScanState
  | 0, st => st
  | count + 1, st =>
      let r := st.stream.readInt32 st.failed
      if r.failed then { st with stream := r.stream, failed := true }
      else ackLoop count { st with stream := r.stream, failed := r.failed }

/-- The loop over the messages of a `msg_container`; `find` is `findReqMsgId:` itself. -/
def containedMessagesLoop (find : BitVec 32 → ScanState → Option ScanState) :
    ℕ → ScanState → Option ScanState
  | 0, st => some st
  | count + 1, st =>
      let messageId := st.stream.readInt64 st.failed
      let seqNo := messageId.stream.readInt32 messageId.failed
      let length := seqNo.stream.readInt32 seqNo.failed
      if length.failed then some { st with stream := length.stream, failed := true }
      else
        let innerSignature := length.stream.readInt32 length.failed
        if innerSignature.failed then
          some { st with stream := innerSignature.stream, failed := true }
        else
          match find innerSignature.value { st with stream := innerSignature.stream } with
          | none => none
          | some st =>
              if st.failed || st.reqMsgId ≠ 0 then some st else containedMessagesLoop find count st

/-- The branch of `rpc_result`. -/
def scanRpcResult (st : ScanState) : ScanState :=
  let value := st.stream.readInt64 st.failed
  if value.failed then { st with stream := value.stream, failed := true }
  else { st with stream := value.stream, reqMsgId := value.value }

/-- The branch of `msgs_ack`. -/
def scanMsgsAck (st : ScanState) : ScanState :=
  let vector := st.stream.readInt32 st.failed
  if vector.failed then { st with stream := vector.stream, failed := true }
  else
    let count := vector.stream.readInt32 vector.failed
    if count.failed then { st with stream := count.stream, failed := true }
    else ackLoop count.value.toInt.toNat { st with stream := count.stream }

/-- The branch of `pong`. -/
def scanPong (st : ScanState) : ScanState :=
  let msgId := st.stream.readInt64 st.failed
  let pingId := msgId.stream.readInt64 msgId.failed
  { st with stream := pingId.stream, failed := pingId.failed }

/-- `findReqMsgId:signature:reqMsgId:failed:`; containers stand inside each other less often than
there are rounds. -/
def findReqMsgId : ℕ → BitVec 32 → ScanState → Option ScanState
  | 0, _, _ => none
  | rounds + 1, signature, st =>
      if signature = 0x73f1f8dc then
        let count := st.stream.readInt32 st.failed
        if count.failed then some { st with stream := count.stream, failed := true }
        else
          containedMessagesLoop (findReqMsgId rounds) count.value.toInt.toNat
            { st with stream := count.stream }
      else if signature = 0xf35c6d01 then some (scanRpcResult st)
      else if signature = 0x62d6b459 then some (scanMsgsAck st)
      else if signature = 0x347773c5 then some (scanPong st)
      else some st

/-- The loop of `transportDecodeProgressToken:`. -/
def scanLoop : ℕ → ScanState → Option ScanState
  | 0, _ => none
  | rounds + 1, st =>
      if st.failed || st.reqMsgId ≠ 0 then some st
      else
        let signature := st.stream.readInt32 st.failed
        match findReqMsgId rounds signature.value
            { st with stream := signature.stream, failed := signature.failed } with
        | none => none
        | some st => scanLoop rounds st

/-- `readInt32` without a flag; short of 4 bytes it throws if logging is on. -/
def MTInputStream.skipInt32 (logEnabled : Bool) (is : MTInputStream) : Option MTInputStream :=
  let r := is.read 4
  if r.1.length ≠ 4 ∧ logEnabled = true then none else some r.2

/-- The id that `transportDecodeProgressToken:` finds in decrypted data, 0 for none. There is no
result if reading the header throws, or after too few rounds. -/
def decodeProgressToken (logEnabled : Bool) (rounds : ℕ) (decryptedData : List UInt8) :
    Option (BitVec 64) := do
  let messageIs := (((⟨decryptedData⟩ : MTInputStream).read 8).2.read 8).2
  let messageIs := (messageIs.read 8).2
  let messageIs ← messageIs.skipInt32 logEnabled
  let messageIs ← messageIs.skipInt32 logEnabled
  let st ← scanLoop rounds ⟨messageIs, 0, false⟩
  pure st.reqMsgId

/-! ### What is taken for an answer -/

/-- An integer of `n` bytes in front, and what comes behind it. -/
def takeInt (n : ℕ) (s : List UInt8) : Option (ℕ × List UInt8) :=
  if s.length < n then none else some (leNat (s.take n), s.drop n)

/-- What is behind the first `n` bytes. -/
def skip (n : ℕ) (s : List UInt8) : Option (List UInt8) :=
  if s.length < n then none else some (s.drop n)

/-- The ids in the messages of a container, and what is left. -/
def visitContained (visit : BitVec 32 → List UInt8 → List (BitVec 64) × Option (List UInt8)) :
    ℕ → List UInt8 → List (BitVec 64) × Option (List UInt8)
  | 0, s => ([], some s)
  | count + 1, s =>
      match (skip 16 s).bind (takeInt 4) with
      | none => ([], none)
      | some (innerSignature, s) =>
          match visit (BitVec.ofNat 32 innerSignature) s with
          | (ids, none) => (ids, none)
          | (ids, some s) =>
              (ids ++ (visitContained visit count s).1, (visitContained visit count s).2)

/-- What is behind a `msgs_ack`, going by ids of four bytes. -/
def skipMsgsAck (s : List UInt8) : Option (List UInt8) :=
  ((skip 4 s).bind (takeInt 4)).bind fun (count, s) =>
    skip (4 * (BitVec.ofNat 32 count).toInt.toNat) s

/-- The ids in a message behind its signature, going by what the scan knows of messages, and what
is left. -/
def visitMessage : ℕ → BitVec 32 → List UInt8 → List (BitVec 64) × Option (List UInt8)
  | 0, _, _ => ([], none)
  | rounds + 1, signature, s =>
      if signature = 0x73f1f8dc then
        match takeInt 4 s with
        | none => ([], none)
        | some (count, s) =>
            visitContained (visitMessage rounds) (BitVec.ofNat 32 count).toInt.toNat s
      else if signature = 0xf35c6d01 then
        match takeInt 8 s with
        | none => ([], none)
        | some (value, s) => ([BitVec.ofNat 64 value], some s)
      else if signature = 0x62d6b459 then ([], skipMsgsAck s)
      else if signature = 0x347773c5 then ([], skip 16 s)
      else ([], some s)

/-- The ids in messages one behind the other. -/
def visitAll : ℕ → List UInt8 → List (BitVec 64)
  | 0, _ => []
  | rounds + 1, s =>
      match takeInt 4 s with
      | none => []
      | some (signature, s) =>
          match visitMessage rounds (BitVec.ofNat 32 signature) s with
          | (ids, none) => ids
          | (ids, some s) => ids ++ visitAll rounds s

/-- The ids that stand behind what is taken for the signature of an `rpc_result` if the scan never
stops at one. -/
def takenIds (payload : List UInt8) : List (BitVec 64) :=
  visitAll (payload.length + 1) (payload.drop 32)

/-- The first id that is not 0. -/
def firstId (ids : List (BitVec 64)) : BitVec 64 := (ids.find? fun id => id ≠ 0).getD 0

@[simp] theorem firstId_nil : firstId [] = 0 := rfl

@[simp] theorem firstId_singleton (id : BitVec 64) : firstId [id] = id := by
  by_cases h : id = 0
  · rw [h]
    rfl
  · rw [firstId, List.find?_cons_of_pos (by simpa using h)]
    rfl

theorem firstId_append_of_ne {ids : List (BitVec 64)} (h : firstId ids ≠ 0)
    (others : List (BitVec 64)) : firstId (ids ++ others) = firstId ids := by
  rw [firstId, List.find?_append]
  cases hfind : ids.find? fun id => decide (id ≠ 0) with
  | none => exact absurd (by rw [firstId, hfind]; rfl) h
  | some id => rw [firstId, hfind]; rfl

theorem firstId_append_of_eq {ids : List (BitVec 64)} (h : firstId ids = 0)
    (others : List (BitVec 64)) : firstId (ids ++ others) = firstId others := by
  rw [firstId, List.find?_append]
  cases hfind : ids.find? fun id => decide (id ≠ 0) with
  | none => rfl
  | some id =>
      have hne := List.find?_some hfind
      rw [firstId, hfind] at h
      exact absurd h (by simpa using hne)

/-! ### The scan of a beginning -/

/-- The scan of `s` against what is visited of `s ++ more`: it fails, which tells nothing unless `s`
is all there is; or it stops at the first id; or it goes on where the visit goes on. -/
inductive Follows (s more : List UInt8) :
    Option ScanState → List (BitVec 64) × Option (List UInt8) → Prop where
  | failed {st : ScanState} {v : List (BitVec 64) × Option (List UInt8)}
      (failed : st.failed = true) (none : st.reqMsgId = 0)
      (all : more = [] → firstId v.1 = 0 ∧ v.2 = Option.none) : Follows s more (some st) v
  | found {st : ScanState} {v : List (BitVec 64) × Option (List UInt8)}
      (going : st.failed = false) (ne : st.reqMsgId ≠ 0) (first : firstId v.1 = st.reqMsgId) :
      Follows s more (some st) v
  | goesOn {rest : List UInt8} {ids : List (BitVec 64)} (first : firstId ids = 0)
      (length : rest.length ≤ s.length) :
      Follows s more (some ⟨⟨rest⟩, 0, false⟩) (ids, some (rest ++ more))

section Follow

variable {s more : List UInt8} {n w : ℕ}

/-- What the stream does when it is read, against `takeInt` with bytes appended. -/
theorem readInt_cases (s more : List UInt8) (n w : ℕ) :
    (MTInputStream.readInt ⟨s⟩ n w false = ⟨0, true, ⟨s.drop n⟩⟩ ∧ s.length < n ∧
        (more = [] → takeInt n (s ++ more) = none ∧ skip n (s ++ more) = none)) ∨
      n ≤ s.length ∧ MTInputStream.readInt ⟨s⟩ n w false =
          ⟨BitVec.ofNat w (leNat (s.take n)), false, ⟨s.drop n⟩⟩ ∧
        takeInt n (s ++ more) = some (leNat (s.take n), s.drop n ++ more) ∧
        skip n (s ++ more) = some (s.drop n ++ more) := by
  by_cases h : s.length < n
  · refine .inl ⟨?_, h, ?_⟩
    · rw [MTInputStream.readInt, MTInputStream.read]
      dsimp only
      rw [if_pos (by rw [List.length_take]; omega)]
    · rintro rfl
      rw [takeInt, skip, List.append_nil, if_pos h, if_pos h]
      exact ⟨rfl, rfl⟩
  · have hle : n ≤ s.length := not_lt.mp h
    refine .inr ⟨hle, ?_, ?_, ?_⟩
    · rw [MTInputStream.readInt, MTInputStream.read]
      dsimp only
      rw [if_neg (by rw [List.length_take]; omega)]
    · rw [takeInt, if_neg (by rw [List.length_append]; omega),
        List.take_append_of_le_length hle, List.drop_append_of_le_length hle]
    · rw [skip, if_neg (by rw [List.length_append]; omega), List.drop_append_of_le_length hle]

/-- The flag stays set. -/
theorem readInt_failed {failed : Bool} (h : failed = true) (n w : ℕ) (is : MTInputStream) :
    (is.readInt n w failed).failed = true := by
  rw [h, MTInputStream.readInt]
  split <;> rfl

/-- The loop over the ids of a `msgs_ack`. -/
theorem ackLoop_eq (count : ℕ) (s : List UInt8) :
    (s.length < 4 * count ∧ (ackLoop count ⟨⟨s⟩, 0, false⟩).failed = true ∧
        (ackLoop count ⟨⟨s⟩, 0, false⟩).reqMsgId = 0) ∨
      4 * count ≤ s.length ∧ ackLoop count ⟨⟨s⟩, 0, false⟩ = ⟨⟨s.drop (4 * count)⟩, 0, false⟩ := by
  induction count generalizing s with
  | zero => exact .inr ⟨Nat.zero_le _, rfl⟩
  | succ count ih =>
      rw [ackLoop, MTInputStream.readInt32]
      rcases readInt_cases s [] 4 32 with ⟨hread, hlt, -⟩ | ⟨hle, hread, -, -⟩
      · rw [hread]
        exact .inl ⟨by omega, rfl, rfl⟩
      · rw [hread]
        rcases ih (s.drop 4) with ⟨hlt, hfailed, hid⟩ | ⟨hle', hloop⟩
        · rw [List.length_drop] at hlt
          exact .inl ⟨by omega, hfailed, hid⟩
        · rw [List.length_drop] at hle'
          refine .inr ⟨by omega, hloop.trans ?_⟩
          rw [List.drop_drop, Nat.mul_succ, Nat.add_comm]

/-- A scan that fails at once. -/
theorem Follows.stop {st : ScanState} {v : List (BitVec 64) × Option (List UInt8)}
    (hfailed : st.failed = true) (hid : st.reqMsgId = 0) (h : more = [] → v = ([], none)) :
    Follows s more (some st) v :=
  .failed hfailed hid fun hmore => by
    rw [h hmore]
    exact ⟨rfl, rfl⟩

/-- What follows from a later place follows from an earlier one, with the ids before it. -/
theorem Follows.after {rest : List UInt8} {ids : List (BitVec 64)} {outcome : Option ScanState}
    {v : List (BitVec 64) × Option (List UInt8)} (h : Follows rest more outcome v)
    (hids : firstId ids = 0) (hlength : rest.length ≤ s.length) :
    Follows s more outcome (ids ++ v.1, v.2) := by
  cases h with
  | failed hfailed hid hall =>
      exact .failed hfailed hid fun hmore =>
        ⟨(firstId_append_of_eq hids _).trans (hall hmore).1, (hall hmore).2⟩
  | found hgoing hne hfirst => exact .found hgoing hne ((firstId_append_of_eq hids _).trans hfirst)
  | goesOn hfirst hle =>
      exact .goesOn ((firstId_append_of_eq hids _).trans hfirst) (hle.trans hlength)

/-- The id, the sequence number and the length of a contained message. -/
theorem readHeader_cases (s : List UInt8) :
    let messageId := (⟨s⟩ : MTInputStream).readInt64 false
    let seqNo := messageId.stream.readInt32 messageId.failed
    let length := seqNo.stream.readInt32 seqNo.failed
    (s.length < 16 ∧ length.failed = true) ∨
      16 ≤ s.length ∧ length.failed = false ∧ length.stream = ⟨s.drop 16⟩ := by
  intro messageId seqNo length
  rcases readInt_cases s [] 8 64 with ⟨hread, hlt, -⟩ | ⟨hle, hread, -, -⟩
  · refine .inl ⟨by omega, ?_⟩
    have hfirst : messageId.failed = true := congrArg StreamInt.failed hread
    exact readInt_failed (readInt_failed hfirst 4 32 messageId.stream) 4 32 seqNo.stream
  · have hfirst : messageId = _ := hread
    have hseqNo : seqNo = (⟨s.drop 8⟩ : MTInputStream).readInt 4 32 false := by
      rw [show seqNo = messageId.stream.readInt 4 32 messageId.failed from rfl, hfirst]
    rcases readInt_cases (s.drop 8) [] 4 32 with ⟨hread', hlt, -⟩ | ⟨hle', hread', -, -⟩
    · rw [List.length_drop] at hlt
      refine .inl ⟨by omega, ?_⟩
      exact readInt_failed (by rw [hseqNo, hread']) 4 32 seqNo.stream
    · have hlength : length = (⟨(s.drop 8).drop 4⟩ : MTInputStream).readInt 4 32 false := by
        rw [show length = seqNo.stream.readInt 4 32 seqNo.failed from rfl, hseqNo, hread']
      rw [List.length_drop] at hle'
      rcases readInt_cases ((s.drop 8).drop 4) [] 4 32 with
        ⟨hread'', hlt, -⟩ | ⟨hle'', hread'', -, -⟩
      · rw [List.length_drop, List.length_drop] at hlt
        exact .inl ⟨by omega, by rw [hlength, hread'']⟩
      · rw [List.length_drop, List.length_drop] at hle''
        refine .inr ⟨by omega, by rw [hlength, hread''], ?_⟩
        rw [hlength, hread'', List.drop_drop, List.drop_drop]

/-- **A container is scanned** as it is visited, if its messages are. -/
theorem containedMessagesLoop_follows (find : BitVec 32 → ScanState → Option ScanState)
    (visit : BitVec 32 → List UInt8 → List (BitVec 64) × Option (List UInt8)) (more : List UInt8)
    (bound : ℕ) (h : ∀ signature s, s.length < bound →
      Follows s more (find signature ⟨⟨s⟩, 0, false⟩) (visit signature (s ++ more)))
    (count : ℕ) (s : List UInt8) (hs : s.length ≤ bound) :
    Follows s more (containedMessagesLoop find count ⟨⟨s⟩, 0, false⟩)
      (visitContained visit count (s ++ more)) := by
  induction count generalizing s with
  | zero => exact .goesOn rfl le_rfl
  | succ count ih =>
      rw [containedMessagesLoop, visitContained]
      dsimp only
      rcases readHeader_cases s with ⟨hlt, hfailed⟩ | ⟨hle, hfailed, hstream⟩
      · rw [if_pos hfailed]
        refine .stop rfl rfl fun hmore => ?_
        rw [hmore, List.append_nil, skip, if_pos hlt]
        rfl
      · have hskip : skip 16 (s ++ more) = some (s.drop 16 ++ more) := by
          rw [skip, if_neg (by rw [List.length_append]; omega),
            List.drop_append_of_le_length hle]
        rw [hfailed, if_neg Bool.false_ne_true, hstream, hskip, Option.bind_some,
          MTInputStream.readInt32]
        rcases readInt_cases (s.drop 16) more 4 32 with ⟨hread, hlt, hall⟩ | ⟨hle', hread, htake, -⟩
        · rw [hread]
          refine .stop rfl rfl fun hmore => ?_
          rw [(hall hmore).1]
        · rw [List.length_drop] at hle'
          rw [hread, htake]
          dsimp only
          have hinner := h (BitVec.ofNat 32 (leNat ((s.drop 16).take 4))) ((s.drop 16).drop 4)
            (by rw [List.length_drop, List.length_drop]; omega)
          rw [if_neg Bool.false_ne_true]
          generalize find (BitVec.ofNat 32 (leNat ((s.drop 16).take 4)))
            ⟨⟨(s.drop 16).drop 4⟩, 0, false⟩ = outcome at hinner ⊢
          generalize visit (BitVec.ofNat 32 (leNat ((s.drop 16).take 4)))
            ((s.drop 16).drop 4 ++ more) = visited at hinner ⊢
          obtain ⟨ids, rest⟩ := visited
          cases hinner with
          | failed hfailed hid hall =>
              dsimp only
              rw [hfailed, Bool.true_or, if_pos rfl]
              refine .failed hfailed hid fun hmore => ?_
              obtain ⟨hfirst, hnone⟩ := hall hmore
              dsimp only at hfirst hnone
              rw [hnone]
              exact ⟨hfirst, rfl⟩
          | found hgoing hne hfirst =>
              dsimp only at hfirst ⊢
              rw [decide_eq_true hne, Bool.or_true, if_pos rfl]
              refine .found hgoing hne ?_
              cases rest with
              | none => exact hfirst
              | some rest => exact (firstId_append_of_ne (hfirst ▸ hne) _).trans hfirst
          | @goesOn rest _ hfirst hlength =>
              dsimp only
              rw [if_neg (by simp)]
              rw [List.length_drop, List.length_drop] at hlength
              have hrest := ih rest (by omega)
              exact hrest.after hfirst (by omega)

/-- An answer ends the scan, unless its id is 0. -/
theorem scanRpcResult_follows (s more : List UInt8) :
    Follows s more (some (scanRpcResult ⟨⟨s⟩, 0, false⟩))
      (match takeInt 8 (s ++ more) with
        | none => ([], none)
        | some (value, s) => ([BitVec.ofNat 64 value], some s)) := by
  rw [scanRpcResult, MTInputStream.readInt64]
  rcases readInt_cases s more 8 64 with ⟨hread, hlt, hall⟩ | ⟨hle, hread, htake, -⟩
  · rw [hread]
    refine .stop rfl rfl fun hmore => ?_
    rw [(hall hmore).1]
  · rw [hread, htake]
    dsimp only
    rw [if_neg Bool.false_ne_true]
    by_cases hzero : BitVec.ofNat 64 (leNat (s.take 8)) = 0
    · rw [hzero]
      exact .goesOn (firstId_singleton 0) (by rw [List.length_drop]; omega)
    · exact .found rfl hzero (firstId_singleton _)

/-- An acknowledgement is skipped, but for half of its ids. -/
theorem scanMsgsAck_follows (s more : List UInt8) :
    Follows s more (some (scanMsgsAck ⟨⟨s⟩, 0, false⟩)) ([], skipMsgsAck (s ++ more)) := by
  rw [scanMsgsAck, MTInputStream.readInt32, skipMsgsAck]
  rcases readInt_cases s more 4 32 with ⟨hread, hlt, hall⟩ | ⟨hle, hread, -, hskip⟩
  · rw [hread]
    refine .stop rfl rfl fun hmore => ?_
    rw [(hall hmore).2]
    rfl
  · rw [hread, hskip, Option.bind_some]
    dsimp only
    rw [if_neg Bool.false_ne_true, MTInputStream.readInt32]
    rcases readInt_cases (s.drop 4) more 4 32 with ⟨hread', hlt, hall⟩ | ⟨hle', hread', htake, -⟩
    · rw [hread']
      refine .stop rfl rfl fun hmore => ?_
      rw [(hall hmore).1]
      rfl
    · rw [hread', htake, Option.bind_some]
      dsimp only
      rw [if_neg Bool.false_ne_true]
      rw [List.length_drop] at hle'
      rcases ackLoop_eq (BitVec.ofNat 32 (leNat ((s.drop 4).take 4))).toInt.toNat
          ((s.drop 4).drop 4) with ⟨hlt, hfailed, hid⟩ | ⟨hle'', hloop⟩
      · refine .stop hfailed hid fun hmore => ?_
        rw [skip, hmore, List.append_nil, if_pos hlt]
      · rw [hloop, skip, if_neg (by rw [List.length_append]; omega),
          List.drop_append_of_le_length hle'']
        refine .goesOn firstId_nil ?_
        rw [List.length_drop, List.length_drop, List.length_drop]
        omega

/-- A pong is skipped. -/
theorem scanPong_follows (s more : List UInt8) :
    Follows s more (some (scanPong ⟨⟨s⟩, 0, false⟩)) ([], skip 16 (s ++ more)) := by
  simp only [scanPong, MTInputStream.readInt64]
  rcases readInt_cases s more 8 64 with ⟨hread, hlt, -⟩ | ⟨hle, hread, -, -⟩
  · rw [hread]
    refine .stop (readInt_failed rfl _ _ _) rfl fun hmore => ?_
    rw [skip, hmore, List.append_nil, if_pos (by omega)]
  · rw [hread]
    dsimp only
    rcases readInt_cases (s.drop 8) more 8 64 with ⟨hread', hlt, -⟩ | ⟨hle', hread', -, -⟩
    · rw [hread']
      rw [List.length_drop] at hlt
      refine .stop rfl rfl fun hmore => ?_
      rw [skip, hmore, List.append_nil, if_pos (by omega)]
    · rw [List.length_drop] at hle'
      rw [hread', skip, if_neg (by rw [List.length_append]; omega),
        List.drop_append_of_le_length (by omega), List.drop_drop]
      exact .goesOn firstId_nil (by rw [List.length_drop]; omega)

/-- **A message is scanned as it is visited.** -/
theorem findReqMsgId_follows (rounds rounds' : ℕ) (signature : BitVec 32) (s more : List UInt8)
    (h : s.length < rounds) (h' : s.length < rounds') :
    Follows s more (findReqMsgId rounds signature ⟨⟨s⟩, 0, false⟩)
      (visitMessage rounds' signature (s ++ more)) := by
  induction rounds generalizing rounds' signature s with
  | zero => omega
  | succ rounds ih =>
      obtain ⟨rounds', rfl⟩ := Nat.exists_eq_succ_of_ne_zero (show rounds' ≠ 0 by omega)
      rw [findReqMsgId, visitMessage]
      split
      · rw [MTInputStream.readInt32]
        rcases readInt_cases s more 4 32 with ⟨hread, hlt, hall⟩ | ⟨hle, hread, htake, -⟩
        · rw [hread]
          refine .stop rfl rfl fun hmore => ?_
          rw [(hall hmore).1]
        · rw [hread, htake]
          have hcontained := containedMessagesLoop_follows (findReqMsgId rounds)
            (visitMessage rounds') more (s.drop 4).length (fun signature s' hs' => by
              rw [List.length_drop] at hs'
              exact ih rounds' signature s' (by omega) (by omega))
            (BitVec.ofNat 32 (leNat (s.take 4))).toInt.toNat (s.drop 4) le_rfl
          exact hcontained.after firstId_nil (by rw [List.length_drop]; omega)
      · split
        · exact scanRpcResult_follows s more
        · split
          · exact scanMsgsAck_follows s more
          · split
            · exact scanPong_follows s more
            · exact .goesOn firstId_nil le_rfl

/-- **The scan ends**, with nothing or with the first id; with nothing only if a part is missing or
there is none. -/
theorem scanLoop_follows (rounds rounds' : ℕ) (s more : List UInt8) (h : s.length + 2 ≤ rounds)
    (h' : s.length < rounds') :
    ∃ st, scanLoop rounds ⟨⟨s⟩, 0, false⟩ = some st ∧
      ((st.reqMsgId = 0 ∧ (more = [] → firstId (visitAll rounds' (s ++ more)) = 0)) ∨
        (st.reqMsgId ≠ 0 ∧ firstId (visitAll rounds' (s ++ more)) = st.reqMsgId)) := by
  induction rounds generalizing rounds' s with
  | zero => omega
  | succ rounds ih =>
      obtain ⟨rounds', rfl⟩ := Nat.exists_eq_succ_of_ne_zero (show rounds' ≠ 0 by omega)
      rw [scanLoop, visitAll, if_neg (by simp)]
      dsimp only
      rw [MTInputStream.readInt32]
      rcases readInt_cases s more 4 32 with ⟨hread, hlt, hall⟩ | ⟨hle, hread, htake, -⟩
      · obtain ⟨rounds, rfl⟩ := Nat.exists_eq_succ_of_ne_zero (show rounds ≠ 0 by omega)
        rw [hread]
        refine ⟨⟨⟨s.drop 4⟩, 0, true⟩, rfl, .inl ⟨rfl, fun hmore => ?_⟩⟩
        rw [(hall hmore).1]
        rfl
      · rw [hread, htake]
        dsimp only
        have hmessage := findReqMsgId_follows rounds rounds'
          (BitVec.ofNat 32 (leNat (s.take 4))) (s.drop 4) more (by rw [List.length_drop]; omega)
          (by rw [List.length_drop]; omega)
        generalize findReqMsgId rounds (BitVec.ofNat 32 (leNat (s.take 4)))
          ⟨⟨s.drop 4⟩, 0, false⟩ = outcome at hmessage ⊢
        generalize visitMessage rounds' (BitVec.ofNat 32 (leNat (s.take 4)))
          (s.drop 4 ++ more) = visited at hmessage ⊢
        obtain ⟨ids, rest⟩ := visited
        have hstops : ∀ st : ScanState, st.failed = true ∨ st.reqMsgId ≠ 0 →
            scanLoop rounds st = some st := by
          intro st hst
          obtain ⟨rounds, rfl⟩ := Nat.exists_eq_succ_of_ne_zero (show rounds ≠ 0 by omega)
          rw [scanLoop, if_pos (by simpa using hst)]
        cases hmessage with
        | @failed st _ hfailed hid hall =>
            refine ⟨st, hstops st (.inl hfailed), .inl ⟨hid, fun hmore => ?_⟩⟩
            obtain ⟨hfirst, hnone⟩ := hall hmore
            dsimp only at hfirst hnone
            rw [hnone]
            exact hfirst
        | @found st _ hgoing hne hfirst =>
            refine ⟨st, hstops st (.inr hne), .inr ⟨hne, ?_⟩⟩
            dsimp only at hfirst
            cases rest with
            | none => exact hfirst
            | some rest => exact (firstId_append_of_ne (hfirst ▸ hne) _).trans hfirst
        | @goesOn rest _ hfirst hlength =>
            rw [List.length_drop] at hlength
            obtain ⟨st, hst, hor⟩ := ih rounds' rest (by omega) (by omega)
            refine ⟨st, hst, ?_⟩
            dsimp only
            rwa [firstId_append_of_eq hfirst]

end Follow

/-! ### Tokens and answers -/

section Tokens

variable {α : Type}

/-- The ids of the requests that the messages answer. -/
def rpcResultIds (messages : List (MTIncomingMessage α)) : List (BitVec 64) :=
  messages.filterMap fun m =>
    match m.body with
    | .internal (.rpcResult requestMessageId _) => some requestMessageId
    | _ => none

/-- The header is skipped or reading it throws. -/
theorem decodeProgressToken_eq (logEnabled : Bool) (rounds : ℕ) (data : List UInt8) :
    (decodeProgressToken logEnabled rounds data = none ∧ data.length < 32) ∨
      decodeProgressToken logEnabled rounds data =
        (scanLoop rounds ⟨⟨data.drop 32⟩, 0, false⟩).map ScanState.reqMsgId := by
  have hskip : ∀ is : MTInputStream,
      (is.skipInt32 logEnabled = none ∧ is.rest.length < 4) ∨
        is.skipInt32 logEnabled = some ⟨is.rest.drop 4⟩ := by
    intro is
    rw [MTInputStream.skipInt32, MTInputStream.read]
    dsimp only
    split
    case isTrue h => exact .inl ⟨rfl, by rw [List.length_take] at h; omega⟩
    case isFalse => exact .inr rfl
  rw [decodeProgressToken]
  dsimp only [MTInputStream.read]
  rw [List.drop_drop, List.drop_drop]
  rcases hskip ⟨data.drop (8 + (8 + 8))⟩ with ⟨hnone, hlt⟩ | hsome
  · rw [List.length_drop] at hlt
    exact .inl ⟨by rw [hnone]; rfl, by omega⟩
  · rw [hsome]
    dsimp only [Option.bind_eq_bind, Option.bind_some]
    rw [List.drop_drop]
    rcases hskip ⟨data.drop (8 + (8 + 8) + 4)⟩ with ⟨hnone, hlt⟩ | hsome'
    · rw [List.length_drop] at hlt
      exact .inl ⟨by rw [hnone]; rfl, by omega⟩
    · rw [hsome', List.drop_drop]
      exact .inr (Option.map_eq_bind).symm

/-- Whatever the scan finds in a beginning of an accepted payload is the id of a request that the
payload answers. -/
def TokensAnswered (ctx : ParseContext α) (payload : List UInt8) : Prop :=
  ∀ messages, ctx.parseIncomingMessages payload = .value messages →
    ∀ start, start <+: payload → ∀ rounds ≥ payload.length + 2, ∀ r ≠ 0,
      decodeProgressToken ctx.logEnabled rounds start = some r → r ∈ rpcResultIds messages

end Tokens

/-- A payload with one `new_session_created`, whose `unique_id` starts with `0xf35c6d01`. -/
def newSessionPayload : List UInt8 :=
  toLE 8 1 ++ toLE 8 5 ++ toLE 8 9 ++ toLE 4 1 ++ toLE 4 28 ++ toLE 4 0x9ec20908 ++ toLE 8 4 ++
    toLE 8 0x11111111f35c6d01 ++ toLE 8 0x2222222233333333 ++
    List.replicate 20 0

end Telegraph.MtProto
