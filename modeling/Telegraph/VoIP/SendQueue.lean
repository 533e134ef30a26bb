import Telegraph.VoIP.BufferPool
import Telegraph.VoIP.StreamFrames

/-!
# The Send Queue of a Call

Every packet that is to be sent lies in a buffer of a pool of 20, from the moment at which a thread
takes the buffer until the send thread gives it back. In between the thread fills it and puts the
packet into the send queue, which holds 21 packets and aborts the process when it gets more. The
destructor puts in one packet without a buffer, to wake the send thread up.

The threads run in any order, and any number of them may make packets. What is one step here runs
under the lock of the pool or of the queue, or is a wait for the semaphore of the queue. A packet of
audio that does not fit into its buffer makes its thread throw, and nothing catches this there, so
the process ends. The other packets have a few fixed bytes, or are copied without a check.

## Main results

* `length_queue_le`: a queue of packets with different buffers of the pool has room for one more.
* `sendHandle_placed`: **one step keeps every buffer in one place**.
* `sendQueue_inPlace`: the queue never holds too many packets, nothing aborts, and each buffer that
  is taken is with the thread that took it, in the queue, or being sent.
-/

open Bytes

namespace Telegraph.VoIP

/-! ### Packets -/

/-- `PKT_PING`. -/
def PKT_PING : UInt8 := 6

/-- `PKT_PONG`. -/
def PKT_PONG : UInt8 := 7

/-- `PKT_NOP`. -/
def PKT_NOP : UInt8 := 14

/-- `CODEC_OPUS`. -/
def CODEC_OPUS : UInt8 := 1

/-- `INIT_FLAG_DATA_SAVING_ENABLED`. -/
def INIT_FLAG_DATA_SAVING_ENABLED : BitVec 32 := 1

/-- The number of buffers of `outgoingPacketsBufferPool`. -/
abbrev outgoingBufferCount : ℕ := 20

/-- The size of its buffers. -/
def outgoingBufferSize : ℕ := 1024

/-- The capacity of `sendQueue`. -/
def sendQueueCapacity : ℕ := 21

/-- `PendingOutgoingPacket`; a packet without a buffer has the data `NULL`. -/
structure PendingOutgoingPacket where
  seq : BitVec 32
  type : UInt8
  len : ℕ
  data : Option ℕ
  endpoint : Option ℕ

/-- `PendingOutgoingPacket{0}`. -/
def nullPacket : PendingOutgoingPacket := ⟨0, 0, 0, none, none⟩

/-- What a buffer is taken for: `HandleAudioInput`, `SendInit`, the answers of `RunRecvThread` to
`PKT_INIT` and `PKT_PING`, and in `RunTickThread` the packet that keeps the call alive, a packet of
`queuedPackets`, and a ping. -/
inductive OutgoingPacket where
  | audio (data : List UInt8) (audioTimestampOut : BitVec 32)
  | init (dataSavingMode : Bool) (endpoint : ℕ)
  | initAck (frameDuration : BitVec 16) (enabled : Bool)
  | pong (pseq : BitVec 32) (endpoint : ℕ)
  | nop
  | queued (type : UInt8) (data : List UInt8)
  | ping (endpoint : ℕ)

namespace OutgoingPacket

/-- `type`. -/
def type : OutgoingPacket → UInt8
  | audio _ _ => PKT_STREAM_DATA
  | init _ _ => PKT_INIT
  | initAck _ _ => PKT_INIT_ACK
  | pong _ _ => PKT_PONG
  | nop => PKT_NOP
  | queued type _ => type
  | ping _ => PKT_PING

/-- `endpoint`. -/
def endpoint : OutgoingPacket → Option ℕ
  | init _ endpoint => some endpoint
  | pong _ endpoint => some endpoint
  | ping endpoint => some endpoint
  | _ => none

/-- The bytes that are written into the buffer. A call has one outgoing stream. -/
def contents : OutgoingPacket → List UInt8
  | audio data audioTimestampOut =>
      let flags := if data.length > 255 then STREAM_DATA_FLAG_LEN16 else 0
      frameHeader (1 ||| flags) data.length audioTimestampOut ++ data
  | init dataSavingMode _ =>
      toLE 4 PROTOCOL_VERSION.toNat ++ toLE 4 MIN_PROTOCOL_VERSION.toNat ++
        toLE 4 (if dataSavingMode then INIT_FLAG_DATA_SAVING_ENABLED else 0).toNat ++
        [1, CODEC_OPUS, 0]
  | initAck frameDuration enabled =>
      toLE 4 PROTOCOL_VERSION.toNat ++ toLE 4 MIN_PROTOCOL_VERSION.toNat ++
        [1, 1, STREAM_TYPE_AUDIO, CODEC_OPUS] ++ toLE 2 frameDuration.toNat ++
        [if enabled then 1 else 0]
  | pong pseq _ => toLE 4 pseq.toNat
  | nop => []
  | queued _ data => data
  | ping _ => []

/-- The packet is written by a `BufferOutputStream` that throws, as it does not fit. -/
def overflows : OutgoingPacket → Bool
  | queued _ _ => false
  | packet => outgoingBufferSize < packet.contents.length

/-- The packet once its bytes are in a buffer. -/
def pending (packet : OutgoingPacket) (seq : BitVec 32) (buffer : ℕ) : PendingOutgoingPacket :=
  ⟨seq, packet.type, packet.contents.length, some buffer, packet.endpoint⟩

end OutgoingPacket

/-! ### The threads -/

/-- A thread that has taken a buffer and not put the packet into the queue yet. -/
structure Filling where
  thread : ℕ
  buffer : ℕ
  packet : OutgoingPacket

/-- Where the send thread is: before `while(runReceiver)`, waiting for the semaphore, before it
takes the packet off the queue, with a packet, or at its end. -/
inductive SendThread where
  | idle
  | waiting
  | acquired
  | sending (packet : PendingOutgoingPacket)
  | exited

/-- The threads, the pool and the queue. Of the destructor there is whether it has told the threads
to end, and whether it has put in its packet. -/
structure SendState where
  pool : BufferPool
  queue : List PendingOutgoingPacket
  semaphore : ℕ
  filling : List Filling
  sendThread : SendThread
  stopping : Bool
  lastPut : Bool
  terminated : Bool

namespace SendState

/-- The constructor. -/
def new : SendState where
  pool := BufferPool.new outgoingBufferCount (by decide)
  queue := []
  semaphore := 0
  filling := []
  sendThread := .idle
  stopping := false
  lastPut := false
  terminated := false

/-- `BlockingQueue::Put`. -/
def put (packet : PendingOutgoingPacket) (s : SendState) : Except MemoryFault SendState :=
  let queue := s.queue ++ [packet]
  if queue.length > sendQueueCapacity then .error .abort
  else .ok { s with queue := queue, semaphore := s.semaphore + 1 }

/-- A thread takes a buffer, unless there is none left. What it has checked before, such as
`stopping`, another thread may have changed by now. -/
def take (thread : ℕ) (packet : OutgoingPacket) (s : SendState) : SendState :=
  if s.filling.any fun f => f.thread = thread then s
  else
    match s.pool.get with
    | (some buffer, pool) =>
        { s with pool := pool, filling := ⟨thread, buffer, packet⟩ :: s.filling }
    | (none, _) => s

/-- A thread fills its buffer and puts the packet into the queue. -/
def finish (thread : ℕ) (seq : BitVec 32) (s : SendState) : Except MemoryFault SendState :=
  match s.filling.find? fun f => f.thread = thread with
  | none => .ok s
  | some f =>
      if f.packet.overflows then .ok { s with terminated := true }
      else
        put (f.packet.pending seq f.buffer)
          { s with filling := s.filling.eraseP fun f => f.thread = thread }

/-- `GetInternal` of the queue; there is no front of an empty one. -/
def pop (s : SendState) : Except MemoryFault SendState :=
  match s.queue with
  | [] => .error .outOfBounds
  | packet :: queue => .ok { s with queue := queue, sendThread := .sending packet }

/-- The send thread is done with a packet. -/
def sent (packet : PendingOutgoingPacket) (s : SendState) : Except MemoryFault SendState :=
  match packet.data with
  | some buffer => do
      let pool ← s.pool.reuse (some buffer)
      pure { s with pool := pool, sendThread := .idle }
  | none => .ok { s with sendThread := .idle }

/-- The next thing that the send thread does. -/
def runSendThread (s : SendState) : Except MemoryFault SendState :=
  match s.sendThread with
  | .idle => .ok { s with sendThread := if s.stopping then .exited else .waiting }
  | .waiting =>
      if 0 < s.semaphore then
        .ok { s with semaphore := s.semaphore - 1, sendThread := .acquired }
      else .ok s
  | .acquired => s.pop
  | .sending packet => s.sent packet
  | .exited => .ok s

end SendState

/-- A step of one of the threads. -/
inductive SendEvent where
  | take (thread : ℕ) (packet : OutgoingPacket)
  | finish (thread : ℕ) (seq : BitVec 32)
  | sendThread
  | stop
  | putLast

/-- What a step does, as long as the process runs. -/
def SendState.handle (s : SendState) (e : SendEvent) : Except MemoryFault SendState :=
  if s.terminated then .ok s
  else
    match e with
    | .take thread packet => .ok (s.take thread packet)
    | .finish thread seq => s.finish thread seq
    | .sendThread => s.runSendThread
    | .stop => .ok { s with stopping := true }
    | .putLast =>
        if s.stopping && !s.lastPut then SendState.put nullPacket { s with lastPut := true }
        else .ok s

/-- One step after the other, until one goes wrong. -/
def sendHandle (x : Except MemoryFault SendState) (e : SendEvent) :
    Except MemoryFault SendState := do
  let s ← x
  s.handle e

/-! ### Where the buffers are -/

/-- The buffer that the send thread has. -/
def SendThread.buffers : SendThread → List ℕ
  | sending packet => packet.data.toList
  | _ => []

/-- The send thread has passed the semaphore and not taken a packet yet. -/
def SendThread.permits : SendThread → ℕ
  | acquired => 1
  | _ => 0

/-- The buffers of the packets in a queue. -/
def queueBuffers (queue : List PendingOutgoingPacket) : List ℕ :=
  queue.filterMap PendingOutgoingPacket.data

/-- The buffers that are with a thread that fills them, in the queue, or being sent. -/
def SendState.buffers (s : SendState) : List ℕ :=
  s.filling.map Filling.buffer ++ (queueBuffers s.queue ++ s.sendThread.buffers)

/-- **Every buffer that is taken is in one place**, at most the packet of the destructor has none,
and the semaphore counts the packets. -/
structure Placed (s : SendState) : Prop where
  count : s.pool.bufferCount = outgoingBufferCount
  nodup : s.buffers.Nodup
  used : ∀ b, b ∈ s.buffers ↔ b < outgoingBufferCount ∧ s.pool.isUsed b = true
  last : s.queue.countP (fun packet => packet.data.isNone) ≤ if s.lastPut then 1 else 0
  permits : s.semaphore + s.sendThread.permits = s.queue.length

section Queue

variable {queue : List PendingOutgoingPacket}

/-- A packet has a buffer, or none. -/
theorem length_queue (queue : List PendingOutgoingPacket) : queue.length =
    (queueBuffers queue).length + queue.countP fun packet => packet.data.isNone := by
  induction queue with
  | nil => rfl
  | cons packet queue ih =>
      rw [queueBuffers, List.filterMap_cons, List.countP_cons, List.length_cons, ih]
      cases packet.data with
      | none => exact (Nat.add_assoc _ _ _)
      | some b => exact Nat.add_right_comm _ _ _

/-- **Different buffers of the pool and one packet without are not too many for the queue.** -/
theorem length_queue_le (hnodup : (queueBuffers queue).Nodup)
    (hpool : ∀ b ∈ queueBuffers queue, b < outgoingBufferCount)
    (hlast : queue.countP (fun packet => packet.data.isNone) ≤ 1) :
    queue.length ≤ sendQueueCapacity := by
  have hsubset : queueBuffers queue ⊆ List.range outgoingBufferCount := fun b hb =>
    List.mem_range.mpr (hpool b hb)
  have hle := (hnodup.subperm hsubset).length_le
  rw [List.length_range] at hle
  rw [length_queue]
  exact Nat.add_le_add hle hlast

/-- Putting a packet in puts in its buffer. -/
theorem queueBuffers_append (queue : List PendingOutgoingPacket) (packet : PendingOutgoingPacket) :
    queueBuffers (queue ++ [packet]) = queueBuffers queue ++ packet.data.toList := by
  rw [queueBuffers, List.filterMap_append]
  cases hdata : packet.data <;> simp [queueBuffers, hdata]

/-- The buffer of the first packet comes first. -/
theorem queueBuffers_cons (packet : PendingOutgoingPacket) (queue : List PendingOutgoingPacket) :
    queueBuffers (packet :: queue) = packet.data.toList ++ queueBuffers queue := by
  rw [queueBuffers, List.filterMap_cons]
  cases packet.data <;> rfl

/-- The buffer of the last packet of the queue, up to the order. -/
theorem perm_last (filling queue sending : List ℕ) (b : ℕ) :
    (filling ++ ((queue ++ [b]) ++ sending)).Perm (b :: (filling ++ (queue ++ sending))) := by
  rw [List.append_assoc queue, ← List.append_assoc filling, ← List.append_assoc filling,
    List.singleton_append]
  exact List.perm_middle

/-- What is found is in front of the rest, up to the order. -/
theorem perm_cons_eraseP {α : Type} {p : α → Bool} {l : List α} {a : α}
    (h : l.find? p = some a) : l.Perm (a :: l.eraseP p) := by
  induction l with
  | nil => cases h
  | cons b l ih =>
      rw [List.find?_cons] at h
      cases hb : p b with
      | true =>
          rw [hb] at h
          obtain rfl : b = a := Option.some.inj h
          rw [List.eraseP_cons_of_pos hb]
      | false =>
          rw [hb] at h
          rw [List.eraseP_cons_of_neg (by simp [hb])]
          exact ((ih h).cons b).trans (.swap a b _)

end Queue

/-! ### Steps -/

section Steps

variable {s s' : SendState}

/-- **The queue has room** as long as every buffer is in one place. -/
theorem Placed.length_le (h : Placed s) : s.queue.length ≤ sendQueueCapacity := by
  have hrest := (List.nodup_append.mp h.nodup).2.1
  refine length_queue_le (List.nodup_append.mp hrest).1 (fun b hb => ?_) (h.last.trans ?_)
  · exact ((h.used b).mp (List.mem_append_right _ (List.mem_append_left _ hb))).1
  · split <;> omega

/-- **A packet goes from one place to another.** -/
theorem Placed.of_perm (h : Placed s) (hpool : s'.pool = s.pool)
    (hperm : s'.buffers.Perm s.buffers)
    (hlast : s'.queue.countP (fun packet => packet.data.isNone) ≤ if s'.lastPut then 1 else 0)
    (hpermits : s'.semaphore + s'.sendThread.permits = s'.queue.length) : Placed s' := by
  refine ⟨?_, hperm.nodup_iff.mpr h.nodup, fun b => ?_, hlast, hpermits⟩
  · rw [hpool]
    exact h.count
  · rw [hperm.mem_iff, hpool]
    exact h.used b

/-- A packet that leaves everything in place is put in. -/
theorem put_eq {packet : PendingOutgoingPacket}
    (h : Placed { s with queue := s.queue ++ [packet], semaphore := s.semaphore + 1 }) :
    s.put packet = .ok { s with queue := s.queue ++ [packet], semaphore := s.semaphore + 1 } :=
  if_neg h.length_le.not_gt

/-- **A thread takes a buffer** that is in no place yet. -/
theorem take_placed (h : Placed s) (thread : ℕ) (packet : OutgoingPacket) :
    Placed (s.take thread packet) := by
  have htaken : ∀ buffer pool, s.pool.get = (some buffer, pool) →
      Placed { s with pool := pool, filling := ⟨thread, buffer, packet⟩ :: s.filling } := by
    intro buffer pool hget
    obtain ⟨hlt, hfree, hcount, hused⟩ := BufferPool.get_eq_some hget
    rw [h.count] at hlt hused
    have hnew : buffer ∉ s.buffers := by
      intro hmem
      rw [((h.used buffer).mp hmem).2] at hfree
      cases hfree
    refine ⟨hcount.trans h.count, List.nodup_cons.mpr ⟨hnew, h.nodup⟩, fun b => ?_, h.last,
      h.permits⟩
    change b ∈ buffer :: s.buffers ↔ _
    rw [List.mem_cons, h.used b]
    constructor
    · rintro (rfl | ⟨hb, hbused⟩)
      · exact ⟨hlt, (hused b hlt).mpr (.inr rfl)⟩
      · exact ⟨hb, (hused b hb).mpr (.inl hbused)⟩
    · rintro ⟨hb, hbused⟩
      rcases (hused b hb).mp hbused with hbused | rfl
      · exact .inr ⟨hb, hbused⟩
      · exact .inl rfl
  rw [SendState.take]
  split
  · exact h
  · split
    · next buffer pool hget => exact htaken buffer pool hget
    · exact h

/-- **A thread puts its packet into the queue.** -/
theorem finish_placed (h : Placed s) (thread : ℕ) (seq : BitVec 32) :
    ∃ s', s.finish thread seq = .ok s' ∧ Placed s' := by
  rw [SendState.finish]
  split
  · exact ⟨s, rfl, h⟩
  · next f hfind =>
      split
      · exact ⟨_, rfl, h.of_perm rfl (.refl _) h.last h.permits⟩
      · have hplaced : Placed { s with
            queue := s.queue ++ [f.packet.pending seq f.buffer]
            semaphore := s.semaphore + 1
            filling := s.filling.eraseP fun f => f.thread = thread } := by
          refine h.of_perm rfl ?_ ?_ ?_
          · have hfilling := (perm_cons_eraseP hfind).map Filling.buffer
            rw [SendState.buffers, SendState.buffers, queueBuffers_append]
            exact (perm_last _ _ _ _).trans (hfilling.append_right _).symm
          · rw [List.countP_append]
            exact h.last
          · have hpermits := h.permits
            rw [List.length_append, List.length_singleton]
            dsimp only
            omega
        exact ⟨_, put_eq hplaced, hplaced⟩

/-- **The last packet has no buffer**, and is the only one without. -/
theorem putLast_placed (h : Placed s) (hlast : s.lastPut = false) :
    ∃ s', SendState.put nullPacket { s with lastPut := true } = .ok s' ∧ Placed s' := by
  have hplaced : Placed { s with
      queue := s.queue ++ [nullPacket], semaphore := s.semaphore + 1, lastPut := true } := by
    refine h.of_perm rfl ?_ ?_ ?_
    · rw [SendState.buffers, SendState.buffers, queueBuffers_append]
      simp [nullPacket]
    · have hnone := h.last
      rw [hlast, if_neg Bool.false_ne_true] at hnone
      rw [List.countP_append]
      exact Nat.add_le_add_right hnone 1
    · have hpermits := h.permits
      rw [List.length_append, List.length_singleton]
      dsimp only
      omega
  exact ⟨_, put_eq hplaced, hplaced⟩

/-- **The send thread takes a packet off the queue**: the semaphore has told that there is one. -/
theorem pop_placed (h : Placed s) (hacquired : s.sendThread = .acquired) :
    ∃ s', s.pop = .ok s' ∧ Placed s' := by
  have hpermits := h.permits
  have hbuffers : s.buffers = s.filling.map Filling.buffer ++ (queueBuffers s.queue ++ []) := by
    rw [SendState.buffers, hacquired]
    rfl
  rw [hacquired, SendThread.permits] at hpermits
  rw [SendState.pop]
  split
  · next hqueue =>
      rw [hqueue] at hpermits
      cases hpermits
  · next packet queue hqueue =>
      rw [hqueue, List.length_cons] at hpermits
      refine ⟨_, rfl, h.of_perm rfl ?_ ?_ ?_⟩
      · rw [hbuffers, hqueue, List.append_nil]
        refine List.Perm.append_left _ ?_
        rw [queueBuffers_cons]
        exact List.perm_append_comm
      · have hlast := h.last
        rw [hqueue, List.countP_cons] at hlast
        exact (Nat.le_add_right _ _).trans hlast
      · exact Nat.add_right_cancel hpermits

/-- **The send thread gives the buffer of its packet back.** -/
theorem sent_placed (h : Placed s) {packet : PendingOutgoingPacket}
    (hsending : s.sendThread = .sending packet) : ∃ s', s.sent packet = .ok s' ∧ Placed s' := by
  have hpermits := h.permits
  have hbuffers : s.buffers =
      s.filling.map Filling.buffer ++ (queueBuffers s.queue ++ packet.data.toList) := by
    rw [SendState.buffers, hsending]
    rfl
  rw [hsending] at hpermits
  rw [SendState.sent]
  cases hdata : packet.data with
  | none =>
      rw [hdata] at hbuffers
      exact ⟨_, rfl, h.of_perm rfl (by rw [hbuffers]; exact .refl _) h.last hpermits⟩
  | some b =>
      rw [hdata] at hbuffers
      have hperm : s.buffers.Perm
          (b :: SendState.buffers { s with sendThread := .idle }) := by
        have hlast := perm_last (s.filling.map Filling.buffer) (queueBuffers s.queue) [] b
        rw [List.append_nil] at hlast
        rw [hbuffers]
        exact hlast
      have hnodup := List.nodup_cons.mp (hperm.nodup_iff.mp h.nodup)
      have hb : b < s.pool.bufferCount := by
        rw [h.count]
        exact ((h.used b).mp (hperm.mem_iff.mpr List.mem_cons_self)).1
      obtain ⟨pool, hreuse, hcount, hused⟩ := BufferPool.reuse_of_lt hb
      rw [h.count] at hused
      refine ⟨{ s with pool := pool, sendThread := .idle }, ?_, hcount.trans h.count, hnodup.2,
        fun c => ?_, h.last, hpermits⟩
      · dsimp only
        rw [hreuse]
        rfl
      · change c ∈ SendState.buffers { s with sendThread := .idle } ↔ _
        have hother : c ∈ SendState.buffers { s with sendThread := .idle } ↔
            c ∈ s.buffers ∧ c ≠ b := by
          rw [hperm.mem_iff, List.mem_cons]
          constructor
          · intro hc
            refine ⟨.inr hc, ?_⟩
            rintro rfl
            exact hnodup.1 hc
          · rintro ⟨hc | hc, hne⟩
            · exact absurd hc hne
            · exact hc
        rw [hother, h.used c]
        constructor
        · rintro ⟨⟨hlt, hcused⟩, hne⟩
          exact ⟨hlt, (hused c hlt).mpr ⟨hcused, hne⟩⟩
        · rintro ⟨hlt, hcused⟩
          obtain ⟨hcused, hne⟩ := (hused c hlt).mp hcused
          exact ⟨⟨hlt, hcused⟩, hne⟩

/-- **The send thread goes on.** -/
theorem runSendThread_placed (h : Placed s) : ∃ s', s.runSendThread = .ok s' ∧ Placed s' := by
  have hpermits := h.permits
  rw [SendState.runSendThread]
  cases hthread : s.sendThread with
  | idle =>
      rw [hthread] at hpermits
      have hperm : ∀ next : SendThread, next.buffers = [] → next.permits = 0 →
          Placed { s with sendThread := next } := by
        intro next hnone hzero
        refine h.of_perm rfl ?_ h.last (by rw [hzero]; exact hpermits)
        rw [SendState.buffers, SendState.buffers, hnone, hthread]
        exact .refl _
      refine ⟨_, rfl, hperm _ ?_ ?_⟩
      · split <;> rfl
      · split <;> rfl
  | waiting =>
      rw [hthread] at hpermits
      change s.semaphore + 0 = s.queue.length at hpermits
      dsimp only
      split
      · next hpos =>
          refine ⟨_, rfl, h.of_perm rfl ?_ h.last ?_⟩
          · rw [SendState.buffers, SendState.buffers, hthread]
            exact .refl _
          · change s.semaphore - 1 + 1 = s.queue.length
            omega
      · exact ⟨s, rfl, h⟩
  | acquired => exact pop_placed h hthread
  | sending packet => exact sent_placed h hthread
  | exited => exact ⟨s, rfl, h⟩

/-- **One step keeps every buffer in one place**, and goes through. -/
theorem sendHandle_placed (h : Placed s) (e : SendEvent) :
    ∃ s', s.handle e = .ok s' ∧ Placed s' := by
  rw [SendState.handle.eq_def]
  split
  · exact ⟨s, rfl, h⟩
  · cases e with
    | take thread packet => exact ⟨_, rfl, take_placed h thread packet⟩
    | finish thread seq => exact finish_placed h thread seq
    | sendThread => exact runSendThread_placed h
    | stop => exact ⟨_, rfl, h.of_perm rfl (.refl _) h.last h.permits⟩
    | putLast =>
        dsimp only
        split
        · next hlast =>
            rw [Bool.and_eq_true, Bool.not_eq_true'] at hlast
            exact putLast_placed h hlast.2
        · exact ⟨s, rfl, h⟩

end Steps

/-! ### Runs -/

/-- At the beginning no buffer is taken. -/
theorem new_placed : Placed SendState.new := by
  refine ⟨rfl, .nil, fun b => ?_, le_rfl, rfl⟩
  rw [SendState.new]
  dsimp only
  rw [BufferPool.isUsed_new]
  exact ⟨fun h => (List.not_mem_nil h).elim, fun h => (Bool.false_ne_true h.2).elim⟩

/-- A thread has taken a buffer and not put it into the queue. -/
def IsFilled (s : SendState) (b : ℕ) : Prop := ∃ f ∈ s.filling, f.buffer = b

/-- A packet in the queue has the buffer. -/
def IsQueued (s : SendState) (b : ℕ) : Prop := ∃ packet ∈ s.queue, packet.data = some b

/-- The send thread has the buffer. -/
def IsSending (s : SendState) (b : ℕ) : Prop :=
  ∃ packet, s.sendThread = .sending packet ∧ packet.data = some b

/-- The queue has room, and **each buffer that is taken is in one place**. -/
structure InPlace (s : SendState) : Prop where
  room : s.queue.length ≤ sendQueueCapacity
  places : ∀ b < outgoingBufferCount,
    s.pool.isUsed b = true ↔ IsFilled s b ∨ IsQueued s b ∨ IsSending s b
  once : s.buffers.Nodup

/-- A buffer is in the list of all places if it is in one of them. -/
theorem mem_buffers {s : SendState} {b : ℕ} :
    b ∈ s.buffers ↔ IsFilled s b ∨ IsQueued s b ∨ IsSending s b := by
  have hqueue : b ∈ queueBuffers s.queue ↔ IsQueued s b := List.mem_filterMap
  have hsending : b ∈ s.sendThread.buffers ↔ IsSending s b := by
    rw [IsSending]
    cases s.sendThread with
    | sending packet => simp [SendThread.buffers]
    | _ => simp [SendThread.buffers]
  rw [SendState.buffers, List.mem_append, List.mem_map, List.mem_append, hqueue, hsending]
  rfl

/-- The invariant says where the buffers are. -/
theorem Placed.inPlace {s : SendState} (h : Placed s) : InPlace s where
  room := h.length_le
  places b hb := by
    rw [← mem_buffers, h.used b]
    exact ⟨fun hused => ⟨hb, hused⟩, And.right⟩
  once := h.nodup

/-- **The send queue of a call never overflows.** However its threads take turns, nothing aborts,
no packet is taken off an empty queue, and every buffer that is taken is with the thread that took
it, in the queue, or being sent. -/
theorem sendQueue_inPlace (es : List SendEvent) :
    Machine.Always sendHandle (fun x => ∃ s, x = .ok s ∧ InPlace s) (.ok SendState.new) es := by
  have hplaced : Machine.Always sendHandle (fun x => ∃ s, x = .ok s ∧ Placed s)
      (.ok SendState.new) es := by
    refine Machine.always_of_step ?_ ⟨_, rfl, new_placed⟩
    rintro x e ⟨s, rfl, hs⟩
    exact sendHandle_placed hs e
  refine hplaced.mono ?_
  rintro x ⟨s, hx, hs⟩
  exact ⟨s, hx, hs.inPlace⟩

/-- A buffer that a thread has just taken is not in the queue yet. -/
theorem not_sendQueue_queuedOrSent :
    ¬ ∀ es : List SendEvent, Machine.Always sendHandle
      (fun x => ∃ s, x = .ok s ∧ ∀ b < outgoingBufferCount,
        s.pool.isUsed b = true → IsQueued s b ∨ IsSending s b) (.ok SendState.new) es := by
  intro h
  obtain ⟨s, hs, hplaces⟩ := (h [.take 0 .nop]).last
  obtain rfl : SendState.new.take 0 .nop = s := Except.ok.inj hs
  rcases hplaces 0 (by decide) (by decide) with ⟨packet, hmem, -⟩ | ⟨packet, hsending, -⟩
  · exact List.not_mem_nil hmem
  · cases hsending

end Telegraph.VoIP
