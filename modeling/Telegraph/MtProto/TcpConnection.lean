import Telegraph.Lib.Bytes
import Telegraph.Lib.Machine

/-!
# Abridged TCP Framing

`MTTcpConnection` prefixes a packet with its length in quarters, in one byte or in the
byte `0x7f` and three more, and takes the incoming byte stream apart with a state machine
over reads of an exact length: a length byte, a long length, the head of a big packet, a
body, or the rest of a quick ack. This module models both, with the AES-CTR layer taken
off, and the socket that collects bytes until a requested read is complete. The control
header of the outgoing direction, the socks handshake and the progress reports are not
part of it.

## Main results

* `feed_request`: the socket hands over a requested read once its bytes are there.
* `feed_packet` / `feed_quickAck`: **what one packet and one quick ack do.**
* `feed_frames`: any sequence of them, however the bytes arrive.
-/

open Bytes

namespace Telegraph.MtProto

/-! ### Sending -/

/-- The `packetData` of `sendDatas:` for one data. -/
def packetData (data : List UInt8) (requestQuickAck : Bool) : List UInt8 :=
  let quarterLength := BitVec.ofNat 32 (data.length / 4)
  if quarterLength.toInt ≤ 0x7e then
    let quarterLengthMarker := UInt8.ofNat quarterLength.toNat
    let quarterLengthMarker :=
      if requestQuickAck then quarterLengthMarker ||| 0x80 else quarterLengthMarker
    [quarterLengthMarker] ++ data
  else
    let quarterLengthMarker : UInt8 := 0x7f
    let quarterLengthMarker :=
      if requestQuickAck then quarterLengthMarker ||| 0x80 else quarterLengthMarker
    [quarterLengthMarker] ++ toLE 3 quarterLength.toNat ++ data

/-! ### Receiving -/

/-- `MTTcpReadTags`, less the tags of the socks handshake. -/
inductive ReadTag where
  | packetShortLength
  | packetLongLength
  | packetBody
  | packetHead
  | quickAck
deriving DecidableEq

/-- A `readDataToLength:withTimeout:tag:` the socket has not completed yet. -/
structure ReadRequest where
  length : ℕ
  tag : ReadTag
deriving DecidableEq

/-- What the delegate is told. -/
inductive Delivery where
  | receivedData (data : List UInt8)
  | receivedQuickAck (ackId : BitVec 32)
deriving DecidableEq

/-- An `MTTcpConnection` and its socket: `reading` is the pending request (none once the
connection is closed), `received` the bytes already there for it. -/
structure TcpConnection where
  quickAckByte : UInt8
  packetHead : Option (List UInt8)
  packetRestLength : ℕ
  reading : Option ReadRequest
  received : List UInt8
  delivered : List Delivery
deriving DecidableEq

/-- An opened connection, waiting for its first length byte. -/
def TcpConnection.opened : TcpConnection where
  quickAckByte := 0
  packetHead := none
  packetRestLength := 0
  reading := some ⟨1, .packetShortLength⟩
  received := []
  delivered := []

/-- `MTTcpProgressCalculationThreshold`. -/
def progressCalculationThreshold : ℕ := 4096

namespace TcpConnection

/-- `readDataToLength:withTimeout:tag:`. -/
def readData (c : TcpConnection) (length : ℕ) (tag : ReadTag) : TcpConnection :=
  { c with reading := some ⟨length, tag⟩ }

@[simp] theorem readData_reading (c : TcpConnection) (length : ℕ) (tag : ReadTag) :
    (c.readData length tag).reading = some ⟨length, tag⟩ := rfl

@[simp] theorem readData_received (c : TcpConnection) (length : ℕ) (tag : ReadTag) :
    (c.readData length tag).received = c.received := rfl

/-- The delegate is told. -/
def deliver (c : TcpConnection) (d : Delivery) : TcpConnection :=
  { c with delivered := c.delivered ++ [d] }

/-- `closeAndNotify`. -/
def closeAndNotify (c : TcpConnection) : TcpConnection :=
  { c with reading := none }

/-- The request for a body of a known length, by way of its head if it is big. -/
def readPacket (c : TcpConnection) (packetBodyLength : ℕ) : TcpConnection :=
  if packetBodyLength ≥ progressCalculationThreshold then
    { c with packetRestLength := packetBodyLength - 128 }.readData 128 .packetHead
  else
    c.readData packetBodyLength .packetBody

/-- `OSSwapInt32`. -/
def osSwapInt32 (x : BitVec 32) : BitVec 32 :=
  BitVec.ofNat 32 (leNat (toLE 4 x.toNat).reverse)

/-- `socket:didReadData:withTag:`. -/
def didReadData (c : TcpConnection) (data : List UInt8) : ReadTag → TcpConnection
  | .packetShortLength =>
      let quarterLengthMarker := data.headD 0
      if quarterLengthMarker &&& 0x80 = 0x80 then
        { c with quickAckByte := quarterLengthMarker }.readData 3 .quickAck
      else if 0x01 ≤ quarterLengthMarker ∧ quarterLengthMarker ≤ 0x7e then
        c.readPacket (quarterLengthMarker.toNat * 4)
      else if quarterLengthMarker = 0x7f then
        c.readData 3 .packetLongLength
      else
        c.closeAndNotify
  | .packetLongLength =>
      let quarterLength := leNat (data.take 3)
      if quarterLength = 0 ∨ quarterLength > 4 * 1024 * 1024 / 4 then
        c.closeAndNotify
      else
        c.readPacket (quarterLength * 4)
  | .packetHead =>
      { c with packetHead := some data }.readData c.packetRestLength .packetBody
  | .packetBody =>
      let packetData := match c.packetHead with
        | some head => head ++ data
        | none => data
      ({ c with packetHead := none }.deliver (.receivedData packetData)).readData 1
        .packetShortLength
  | .quickAck =>
      let ackId := BitVec.ofNat 32 (leNat ([c.quickAckByte] ++ data.take 3))
      let ackId := osSwapInt32 ackId &&& 0x7fffffff
      (c.deliver (.receivedQuickAck ackId)).readData 1 .packetShortLength

/-- A byte arrives at the socket, which completes the pending read once it is full. -/
def feed (c : TcpConnection) (byte : UInt8) : TcpConnection :=
  match c.reading with
  | none => c
  | some request =>
      if (c.received ++ [byte]).length = request.length then
        { c with received := [] }.didReadData (c.received ++ [byte]) request.tag
      else
        { c with received := c.received ++ [byte] }

/-- The bytes of a requested read complete it, and nothing before the last of them does. -/
theorem feed_request {c : TcpConnection} {request : ReadRequest} {data : List UInt8}
    (hreading : c.reading = some request) (hne : data ≠ [])
    (hlen : c.received.length + data.length = request.length) :
    Machine.run feed c data =
      { c with received := [] }.didReadData (c.received ++ data) request.tag := by
  induction data generalizing c with
  | nil => exact absurd rfl hne
  | cons b bs ih =>
      rw [Machine.run_cons]
      rw [List.length_cons] at hlen
      cases bs with
      | nil =>
          have hfull : (c.received ++ [b]).length = request.length := by
            simpa using hlen
          rw [Machine.run_nil, feed, hreading]
          exact if_pos hfull
      | cons b' bs =>
          have hpart : ¬ (c.received ++ [b]).length = request.length := by
            simp only [List.length_append, List.length_cons, List.length_nil] at hlen ⊢
            omega
          have hfeed : c.feed b = { c with received := c.received ++ [b] } := by
            rw [feed, hreading]
            exact if_neg hpart
          have hrest := ih (c := { c with received := c.received ++ [b] }) hreading
            (List.cons_ne_nil _ _)
            (by simp only [List.length_append, List.length_cons, List.length_nil] at hlen ⊢; omega)
          rw [hfeed, hrest, List.append_assoc]
          rfl

/-- A read that is requested on an empty socket and then arrives. -/
theorem feed_read (c : TcpConnection) {data : List UInt8} {n : ℕ} {tag : ReadTag}
    (hreading : c.reading = some ⟨n, tag⟩) (hn : data.length = n) (hreceived : c.received = [])
    (hne : data ≠ []) : Machine.run feed c data = c.didReadData data tag := by
  have hsame : { c with received := [] } = c := by rw [← hreceived]
  rw [feed_request hreading hne (by simp [hreceived, hn]), hsame, hreceived, List.nil_append]

/-- A connection waiting for a length byte, with no packet head left over. -/
structure Idle (c : TcpConnection) : Prop where
  reading : c.reading = some ⟨1, .packetShortLength⟩
  received : c.received = []
  packetHead : c.packetHead = none

theorem idle_opened : Idle opened :=
  ⟨rfl, rfl, rfl⟩

/-! ### One frame -/

/-- A packet body, whole or in a head and a rest, is delivered as it is. -/
theorem feed_readPacket {c : TcpConnection} {data : List UInt8} (hreceived : c.received = [])
    (hhead : c.packetHead = none) (hne : data ≠ []) :
    Idle (Machine.run feed (c.readPacket data.length) data) ∧
      (Machine.run feed (c.readPacket data.length) data).delivered =
        c.delivered ++ [.receivedData data] := by
  by_cases hbig : data.length ≥ progressCalculationThreshold
  · have hthreshold : progressCalculationThreshold = 4096 := rfl
    have hhlen : (data.take 128).length = 128 := by
      rw [List.length_take]
      omega
    have hrlen : (data.drop 128).length = data.length - 128 := List.length_drop
    have hhne : data.take 128 ≠ [] := List.ne_nil_of_length_pos (by omega)
    have hrne : data.drop 128 ≠ [] := List.ne_nil_of_length_pos (by omega)
    have hfirst : Machine.run feed (c.readPacket data.length) (data.take 128) =
        { c with
          packetRestLength := data.length - 128
          packetHead := some (data.take 128) }.readData (data.length - 128) .packetBody := by
      rw [readPacket, if_pos hbig, feed_read _ (readData_reading _ _ _) hhlen
        (by rw [readData_received, hreceived]) hhne]
      simp only [didReadData, readData]
    have hsecond : Machine.run feed (c.readPacket data.length) data =
        { c with
          packetRestLength := data.length - 128
          packetHead := none
          delivered := c.delivered ++ [Delivery.receivedData data] }.readData 1
            .packetShortLength := by
      conv_lhs => rw [← List.take_append_drop 128 data, Machine.run_append,
        List.take_append_drop, hfirst]
      rw [feed_read _ (readData_reading _ _ _) hrlen (by rw [readData_received, hreceived]) hrne]
      simp only [didReadData, deliver, readData, List.take_append_drop]
    rw [hsecond]
    exact ⟨⟨rfl, hreceived, rfl⟩, rfl⟩
  · rw [readPacket, if_neg hbig,
      feed_read _ (readData_reading _ _ _) rfl (by rw [readData_received, hreceived]) hne]
    refine ⟨⟨rfl, hreceived, rfl⟩, ?_⟩
    simp [didReadData, deliver, readData, hhead]

/-- A byte has its high bit set from 128 on. -/
theorem highBit_iff (u : UInt8) : u &&& 0x80 = 0x80 ↔ 128 ≤ u.toNat := by
  have hbits : ∀ b : BitVec 8, b &&& 0x80#8 = 0x80#8 ↔ 128 ≤ b.toNat := by decide
  rw [← UInt8.toBitVec_inj]
  exact hbits u.toBitVec

/-- The low 31 bits of a word. -/
theorem and_low31 (x : BitVec 32) : x &&& 0x7fffffff = BitVec.ofNat 32 (x.toNat % 2 ^ 31) := by
  apply BitVec.eq_of_toNat_eq
  rw [BitVec.toNat_and, BitVec.toNat_ofNat]
  have hmask : (0x7fffffff : BitVec 32).toNat = 2 ^ 31 - 1 := by decide
  rw [hmask, Nat.and_two_pow_sub_one_eq_mod]
  omega

/-- Four bytes make a 32-bit value. -/
theorem leNat_four_lt (b0 b1 b2 b3 : UInt8) : leNat [b0, b1, b2, b3] < 2 ^ 32 := by
  have hlt := leNat_lt [b0, b1, b2, b3]
  have hpow : 256 ^ (0 + 1 + 1 + 1 + 1) = 2 ^ 32 := by decide
  rwa [List.length_cons, List.length_cons, List.length_cons, List.length_cons, List.length_nil,
    hpow] at hlt

/-- Swapping a word read from four bytes reads them from the other end. -/
theorem osSwapInt32_bytes (b0 b1 b2 b3 : UInt8) :
    osSwapInt32 (BitVec.ofNat 32 (leNat [b0, b1, b2, b3])) =
      BitVec.ofNat 32 (leNat [b3, b2, b1, b0]) := by
  have hbytes : toLE 4 (leNat [b0, b1, b2, b3]) = [b0, b1, b2, b3] :=
    toLE_leNat [b0, b1, b2, b3]
  rw [osSwapInt32, BitVec.toNat_ofNat, Nat.mod_eq_of_lt (leNat_four_lt ..), hbytes]
  rfl

end TcpConnection

/-! ### Sequences of frames -/

/-- A payload the connection carries: a positive multiple of four bytes, at most 4 MiB. -/
structure FramePayload where
  data : List UInt8
  pos : 0 < data.length
  quarters : 4 ∣ data.length
  le : data.length ≤ 4 * 1024 * 1024

/-- A quick-ack word: four bytes, the first with its high bit set. -/
structure QuickAckWord where
  b0 : UInt8
  b1 : UInt8
  b2 : UInt8
  b3 : UInt8
  high : b0 &&& 0x80 = 0x80

/-- What the peer sends. -/
inductive Frame where
  | packet (payload : FramePayload)
  | quickAck (word : QuickAckWord)

/-- The bytes of a frame on the wire. -/
def Frame.bytes : Frame → List UInt8
  | .packet payload => packetData payload.data false
  | .quickAck word => [word.b0, word.b1, word.b2, word.b3]

/-- What the delegate has to be told about a frame: the payload byte for byte, or the
word, big-endian and without its top bit. -/
def Frame.delivery : Frame → Delivery
  | .packet payload => .receivedData payload.data
  | .quickAck word =>
      .receivedQuickAck (BitVec.ofNat 32 (leNat [word.b3, word.b2, word.b1, word.b0] % 2 ^ 31))

open TcpConnection

/-- The length prefix of a payload. -/
theorem packetData_payload (payload : FramePayload) :
    ∃ q, payload.data.length = q * 4 ∧ 0 < q ∧ q ≤ 2 ^ 20 ∧
      packetData payload.data false =
        if q ≤ 0x7e then [UInt8.ofNat q] ++ payload.data
        else [0x7f] ++ (toLE 3 q ++ payload.data) := by
  obtain ⟨data, hpos, ⟨q, hq⟩, hle⟩ := payload
  dsimp only
  have hdiv : data.length / 4 = q := by omega
  have hnat : (BitVec.ofNat 32 q).toNat = q := by
    rw [BitVec.toNat_ofNat]
    omega
  have hint : (BitVec.ofNat 32 q).toInt = q := toInt_length (by omega)
  refine ⟨q, by omega, by omega, by omega, ?_⟩
  simp only [packetData, hdiv, hnat, hint, Bool.false_eq_true, if_false, List.append_assoc]
  by_cases hshort : q ≤ 0x7e
  · rw [if_pos hshort, if_pos (by omega)]
  · rw [if_neg hshort, if_neg (by omega)]

/-- **One packet** is delivered byte for byte, and leaves the connection idle. -/
theorem feed_packet {c : TcpConnection} (hc : c.Idle) (payload : FramePayload) :
    (Machine.run feed c (packetData payload.data false)).Idle ∧
      (Machine.run feed c (packetData payload.data false)).delivered =
        c.delivered ++ [.receivedData payload.data] := by
  obtain ⟨q, hlen, hpos, hle, hdata⟩ := packetData_payload payload
  have hne : payload.data ≠ [] := List.ne_nil_of_length_pos payload.pos
  rw [hdata]
  by_cases hshort : q ≤ 0x7e
  · have hmarker : (UInt8.ofNat q).toNat = q := by
      rw [UInt8.toNat_ofNat']
      omega
    have hhigh : ¬ (UInt8.ofNat q &&& 0x80 = 0x80) := by
      rw [highBit_iff, hmarker]
      omega
    have hrange : 0x01 ≤ UInt8.ofNat q ∧ UInt8.ofNat q ≤ 0x7e := by
      rw [UInt8.le_iff_toNat_le, UInt8.le_iff_toNat_le, hmarker]
      exact ⟨hpos, hshort⟩
    have hfirst : Machine.run feed c [UInt8.ofNat q] = c.readPacket payload.data.length := by
      rw [feed_read c hc.reading rfl hc.received (List.cons_ne_nil _ _), hlen]
      simp only [didReadData, List.headD_cons, if_neg hhigh, if_pos hrange, hmarker]
    rw [if_pos hshort, Machine.run_append, hfirst]
    exact feed_readPacket hc.received hc.packetHead hne
  · have hq24 : leNat (toLE 3 q) = q := leNat_toLE_of_lt (by omega)
    have hvalid : ¬ (q = 0 ∨ q > 4 * 1024 * 1024 / 4) := by omega
    have hfirst : Machine.run feed c [0x7f] = c.readData 3 .packetLongLength := by
      rw [feed_read c hc.reading rfl hc.received (List.cons_ne_nil _ _)]
      rfl
    have hsecond : Machine.run feed (c.readData 3 .packetLongLength) (toLE 3 q) =
        (c.readData 3 .packetLongLength).readPacket payload.data.length := by
      rw [feed_read (c.readData 3 .packetLongLength) rfl (length_toLE 3 q) hc.received
        (List.cons_ne_nil _ _), hlen]
      simp only [didReadData, List.take_of_length_le (length_toLE 3 q).le, hq24,
        if_neg hvalid]
    rw [if_neg hshort, Machine.run_append, hfirst, Machine.run_append, hsecond]
    exact feed_readPacket hc.received hc.packetHead hne

/-- **One quick-ack word** is delivered as its ack id, and leaves the connection idle. -/
theorem feed_quickAck {c : TcpConnection} (hc : c.Idle) (word : QuickAckWord) :
    (Machine.run feed c (Frame.quickAck word).bytes).Idle ∧
      (Machine.run feed c (Frame.quickAck word).bytes).delivered =
        c.delivered ++ [(Frame.quickAck word).delivery] := by
  obtain ⟨b0, b1, b2, b3, hhigh⟩ := word
  have hfirst : Machine.run feed c [b0] =
      { c with quickAckByte := b0 }.readData 3 .quickAck := by
    rw [feed_read c hc.reading rfl hc.received (List.cons_ne_nil _ _)]
    exact if_pos hhigh
  have hack : osSwapInt32 (BitVec.ofNat 32 (leNat [b0, b1, b2, b3])) &&& 0x7fffffff =
      BitVec.ofNat 32 (leNat [b3, b2, b1, b0] % 2 ^ 31) := by
    rw [osSwapInt32_bytes, and_low31, BitVec.toNat_ofNat, Nat.mod_eq_of_lt (leNat_four_lt ..)]
  have hsecond : Machine.run feed ({ c with quickAckByte := b0 }.readData 3 .quickAck)
      [b1, b2, b3] = ({ c with quickAckByte := b0 }.deliver
        (Frame.quickAck ⟨b0, b1, b2, b3, hhigh⟩).delivery).readData 1 .packetShortLength := by
    have hlen : [b1, b2, b3].length = 3 := rfl
    rw [feed_read _ (readData_reading _ _ _) hlen (by rw [readData_received, hc.received])
      (List.cons_ne_nil _ _), Frame.delivery, ← hack]
    rfl
  have hsplit : (Frame.quickAck ⟨b0, b1, b2, b3, hhigh⟩).bytes = [b0] ++ [b1, b2, b3] := rfl
  rw [hsplit, Machine.run_append, hfirst, hsecond]
  exact ⟨⟨rfl, hc.received, hc.packetHead⟩, rfl⟩

/-- Frames that reach an idle connection are delivered in order and leave it idle. -/
theorem feed_idle {c : TcpConnection} (hc : c.Idle) (frames : List Frame) :
    (Machine.run feed c (frames.flatMap Frame.bytes)).Idle ∧
      (Machine.run feed c (frames.flatMap Frame.bytes)).delivered =
        c.delivered ++ frames.map Frame.delivery := by
  induction frames generalizing c with
  | nil => exact ⟨hc, (List.append_nil _).symm⟩
  | cons frame frames ih =>
      have hframe : (Machine.run feed c frame.bytes).Idle ∧
          (Machine.run feed c frame.bytes).delivered = c.delivered ++ [frame.delivery] := by
        cases frame with
        | packet payload => exact feed_packet hc payload
        | quickAck word => exact feed_quickAck hc word
      obtain ⟨hidle, hdelivered⟩ := ih hframe.1
      rw [List.flatMap_cons, Machine.run_append]
      refine ⟨hidle, hdelivered.trans ?_⟩
      rw [hframe.2, List.append_assoc]
      rfl

/-- **Abridged framing.** Whatever payloads and quick acks arrive, in any interleaving and
in any pieces, an opened connection delivers exactly those, in order, and ends waiting for
a new length byte with no packet head left over. -/
theorem feed_frames (frames : List Frame) :
    (Machine.run feed opened (frames.flatMap Frame.bytes)).Idle ∧
      (Machine.run feed opened (frames.flatMap Frame.bytes)).delivered =
        frames.map Frame.delivery :=
  feed_idle idle_opened frames

end Telegraph.MtProto
