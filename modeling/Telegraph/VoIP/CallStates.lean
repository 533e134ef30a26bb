import Telegraph.VoIP.PacketFormat

/-!
# The States of a Call

`RunRecvThread` and `RunTickThread` both call `SetState`: the first for packets, the second
for timeouts. This module models the two threads as far as the state of the call goes. A
packet is one step, and so is each of the blocks of a tick that look at the state; between
any two of them the clock may advance and the other thread may run.

Times are in nanoseconds. What an audio device reports, which endpoint is in use, and the
garbage of an uninitialised `packetInnerLen` are arguments of the events.

## Main results

* `step_of_failed`: what one step does to a failed call.
* `failure_final_iff`: **a failed call stays failed** exactly when no stream data passes
  behind an init ack, and no established timer runs out, while it is failed.
-/

namespace Telegraph.VoIP

/-! ### The controller -/

/-- `PROTOCOL_VERSION`. -/
def PROTOCOL_VERSION : BitVec 32 := 3

/-- `MIN_PROTOCOL_VERSION`. -/
def MIN_PROTOCOL_VERSION : BitVec 32 := 3

/-- `PKT_INIT`. -/
def PKT_INIT : UInt8 := 1

/-- `PKT_INIT_ACK`. -/
def PKT_INIT_ACK : UInt8 := 2

/-- `PKT_STREAM_DATA`. -/
def PKT_STREAM_DATA : UInt8 := 4

/-- `PKT_STREAM_DATA_X2`. -/
def PKT_STREAM_DATA_X2 : UInt8 := 8

/-- `PKT_STREAM_DATA_X3`. -/
def PKT_STREAM_DATA_X3 : UInt8 := 9

/-- `STREAM_TYPE_AUDIO`. -/
def STREAM_TYPE_AUDIO : UInt8 := 1

/-- Half a second, after which `SendInit` runs again. -/
def resendInitDelay : ℤ := 500000000

/-- The `TGVOIP_ERROR_` constants. -/
inductive CallError where
  | unknown
  | incompatible
  | timeout
  | audioIo
deriving DecidableEq

/-- What a controller is set up with. -/
structure CallConfig where
  crypto : Crypto
  key : EncryptionKey
  isOutgoing : Bool
  initTimeout : ℕ
  recvTimeout : ℕ
  reconnectingTimeout : ℕ
  establishedDelay : ℕ

/-- The block `RunTickThread` is about to run. -/
inductive TickBlock where
  | start
  | audio
  | sendInit
  | timeouts
  | reconnecting
  | established
deriving DecidableEq

/-- What of `VoIPController` the state of the call depends on. `audioIo` tells whether the
audio objects exist, `receiving` whether the receive thread still runs, `time` is the
variable of `RunTickThread`, and `clock` the last reading of the clock. -/
structure Controller where
  state : CallState
  stateChangeTime : ℕ
  lastError : Option CallError
  connectionInitTime : ℕ
  lastRecvPacketTime : ℕ
  setEstablishedAt : ℕ
  receivedInit : Bool
  receivedInitAck : Bool
  peerVersion : BitVec 32
  window : RecvWindow
  audioIo : Bool
  receiving : Bool
  tickBlock : TickBlock
  time : ℕ
  clock : ℕ+

namespace Controller

/-- A controller after `Start` and `Connect`, at time `now`. -/
def connected (now : ℕ+) : Controller where
  state := .waitInitAck
  stateChangeTime := now
  lastError := none
  connectionInitTime := now
  lastRecvPacketTime := 0
  setEstablishedAt := 0
  receivedInit := false
  receivedInitAck := false
  peerVersion := 0
  window := RecvWindow.init
  audioIo := false
  receiving := true
  tickBlock := .start
  time := 0
  clock := now

/-- The clock advances. -/
def wait (s : Controller) (elapsed : ℕ) : Controller :=
  { s with clock := ⟨s.clock + elapsed, Nat.add_pos_left s.clock.pos elapsed⟩ }

/-- `SetState`. -/
def setState (s : Controller) (state : CallState) : Controller :=
  { s with state := state, stateChangeTime := s.clock }

/-- `SetState(STATE_FAILED)` behind an assignment to `lastError`. -/
def fail (s : Controller) (error : CallError) : Controller :=
  { s with lastError := some error }.setState .failed

/-- `RunRecvThread` returns. -/
def stopReceiving (s : Controller) : Controller :=
  { s with receiving := false }

/-! ### The receive thread -/

/-- What the audio devices report. -/
structure AudioStatus where
  micMuted : Bool
  inputInitialized : Bool
  outputInitialized : Bool

/-- `minVer>PROTOCOL_VERSION || peerVersion<MIN_PROTOCOL_VERSION`. -/
def incompatible (minVer peerVersion : BitVec 32) : Bool :=
  decide (minVer > PROTOCOL_VERSION) || peerVersion.slt MIN_PROTOCOL_VERSION

/-- The handler of `PKT_INIT`, as far as the versions. -/
def handleInit (s : Controller) (stream : BufferInputStream) : Controller :=
  let s := { s with receivedInit := true }
  match readInt32 stream with
  | none => s
  | some (peerVersion, stream) =>
      let s := { s with peerVersion := peerVersion }
      match readInt32 stream with
      | none => s
      | some (minVer, _) =>
          if incompatible minVer peerVersion then (s.fail .incompatible).stopReceiving else s

/-- A `voip_stream_t`. -/
structure VoIPStream where
  id : UInt8
  type : UInt8
  codec : UInt8
  frameDuration : BitVec 16
  enabled : Bool

/-- One stream of an init ack. -/
def readStream (peerVersion : BitVec 32) : StreamReader VoIPStream := do
  let id ← readByte
  let type ← readByte
  let codec ← readByte
  let frameDuration ← if (2#32).sle peerVersion then readInt16 else pure 20
  let enabled ← readByte
  pure ⟨id, type, codec, frameDuration, enabled == 1⟩

/-- The streams of an init ack. -/
def readStreams (peerVersion : BitVec 32) : ℕ → StreamReader (List VoIPStream)
  | 0 => pure []
  | count + 1 => do
      let stream ← readStream peerVersion
      let streams ← readStreams peerVersion count
      pure (stream :: streams)

/-- The audio objects are created, unless they exist: the error, if a device fails. -/
def createAudioIo (s : Controller) (audio : AudioStatus) : Controller × Bool :=
  if s.audioIo then (s, true)
  else
    let s := { s with audioIo := true }
    if (!audio.micMuted && !audio.inputInitialized) || !audio.outputInitialized then
      ((s.fail .audioIo).stopReceiving, false)
    else (s, true)

/-- The handler of `PKT_INIT_ACK` from the stream count on. -/
def handleStreams (config : CallConfig) (s : Controller) (stream : BufferInputStream)
    (audio : AudioStatus) : Controller :=
  match readByte stream with
  | none => s
  | some (streamCount, stream) =>
      match readStreams s.peerVersion streamCount.toNat stream with
      | none => s
      | some (streams, _) =>
          if streams.any (fun stm => stm.type == STREAM_TYPE_AUDIO) then
            let (s, created) := s.createAudioIo audio
            if created then { s with setEstablishedAt := s.clock + config.establishedDelay }
            else s
          else s

/-- The handler of `PKT_INIT_ACK`. -/
def handleInitAck (config : CallConfig) (s : Controller) (packetInnerLen : ℕ)
    (stream : BufferInputStream) (audio : AudioStatus) : Controller :=
  if s.receivedInitAck then s
  else
    let s := { s with receivedInitAck := true }
    if packetInnerLen > 10 then
      match readInt32 stream with
      | none => s
      | some (peerVersion, stream) =>
          let s := { s with peerVersion := peerVersion }
          match readInt32 stream with
          | none => s
          | some (minVer, stream) =>
              if incompatible minVer peerVersion then (s.fail .incompatible).stopReceiving
              else handleStreams config s stream audio
    else handleStreams config { s with peerVersion := 1 } stream audio

/-- `type==PKT_STREAM_DATA || type==PKT_STREAM_DATA_X2 || type==PKT_STREAM_DATA_X3`. -/
def isStreamData (type : UInt8) : Bool :=
  type == PKT_STREAM_DATA || type == PKT_STREAM_DATA_X2 || type == PKT_STREAM_DATA_X3

/-- The handler of stream data, before it reads any. -/
def handleStreamData (s : Controller) : Controller :=
  if s.state ≠ .established ∧ s.receivedInitAck = true then s.setState .established else s

/-- The handlers of a packet that passes the window. -/
def handlePacket (config : CallConfig) (s : Controller) (header : PacketHeader)
    (stream : BufferInputStream) (stale : ℕ) (audio : AudioStatus) : Controller :=
  if header.type = PKT_INIT then s.handleInit stream
  else if header.type = PKT_INIT_ACK then
    s.handleInitAck config (header.packetInnerLen.getD stale) stream audio
  else if isStreamData header.type then s.handleStreamData
  else s

/-- What `RunRecvThread` does about a datagram it does not take apart. Once the hash is
right the time of it counts. -/
def handleRejection (s : Controller) (rejection : Rejection) : Controller :=
  match rejection with
  | .wrongPeerTag | .relayResponse | .tooSmall | .wrongFingerprint | .wrongHash => s
  | .noSeq | .unknownType | .outOfRange => { s with lastRecvPacketTime := s.clock }
  | .wrongCallId =>
      ({ s with lastRecvPacketTime := s.clock }.fail .unknown).stopReceiving
  | .wrongProtocol =>
      ({ s with lastRecvPacketTime := s.clock }.fail .incompatible).stopReceiving

/-- One round of `RunRecvThread`, for a datagram from `src`. -/
def receive (config : CallConfig) (s : Controller) (src : DatagramEndpoint)
    (datagram : List UInt8) (stale : ℕ) (audio : AudioStatus) : Controller :=
  match receivePacket config.crypto config.key config.isOutgoing src datagram with
  | .error rejection => s.handleRejection rejection
  | .ok (header, stream) =>
      let (window, passed) := receiveSeq s.window header.pseq s.clock
      let s := { s with lastRecvPacketTime := s.clock, window := window }
      if passed then s.handlePacket config header stream stale audio else s

/-! ### The tick thread -/

/-- The audio devices are looked after. -/
def tickAudio (s : Controller) (audio : AudioStatus) : Controller :=
  if s.state = .established ∧ s.audioIo = true then
    if !audio.inputInitialized || !audio.outputInitialized then s.fail .audioIo else s
  else s

/-- `SendInit`, half a second after the last one. -/
def tickSendInit (s : Controller) : Controller :=
  if s.state = .waitInitAck ∧ (s.clock : ℤ) - s.stateChangeTime > resendInitDelay then
    s.setState .waitInitAck
  else s

/-- The timeouts of a call that is up, and of one that is not yet; `p2p` tells whether the
endpoint in use is no relay. -/
def tickTimeouts (config : CallConfig) (s : Controller) (p2p : Bool) : Controller :=
  if s.state = .established ∨ s.state = .reconnecting then
    if (s.time : ℤ) - s.lastRecvPacketTime ≥ config.recvTimeout then
      if p2p then { s with lastRecvPacketTime := s.time } else s.fail .timeout
    else s
  else if s.state = .waitInit ∨ s.state = .waitInitAck then
    if (s.clock : ℤ) - s.connectionInitTime ≥ config.initTimeout then s.fail .timeout else s
  else s

/-- `SetState(STATE_RECONNECTING)`. -/
def tickReconnecting (config : CallConfig) (s : Controller) : Controller :=
  if s.state = .established ∧
      (s.time : ℤ) - s.lastRecvPacketTime ≥ config.reconnectingTimeout then
    s.setState .reconnecting
  else s

/-- `SetState(STATE_ESTABLISHED)` when no stream data has come. -/
def tickEstablished (s : Controller) : Controller :=
  if s.state ≠ .established ∧ s.setEstablishedAt > 0 ∧ s.time ≥ s.setEstablishedAt then
    { s.setState .established with setEstablishedAt := 0 }
  else s

/-- The next block of `RunTickThread`. -/
def tick (config : CallConfig) (s : Controller) (p2p : Bool) (audio : AudioStatus) :
    Controller :=
  match s.tickBlock with
  | .start =>
      if s.connectionInitTime = 0 then s else { s with time := s.clock, tickBlock := .audio }
  | .audio => { s.tickAudio audio with tickBlock := .sendInit }
  | .sendInit => { s.tickSendInit with tickBlock := .timeouts }
  | .timeouts => { s.tickTimeouts config p2p with tickBlock := .reconnecting }
  | .reconnecting => { s.tickReconnecting config with tickBlock := .established }
  | .established => { s.tickEstablished with tickBlock := .start }

end Controller

/-! ### Runs -/

/-- What the threads of a call go on. -/
inductive CallEvent where
  /-- A datagram arrives. -/
  | packet (elapsed : ℕ) (src : DatagramEndpoint) (datagram : List UInt8) (stale : ℕ)
      (audio : Controller.AudioStatus)
  /-- The UDP socket fails. -/
  | socketFailed (elapsed : ℕ)
  /-- The tick thread runs its next block. -/
  | tick (elapsed : ℕ) (p2p : Bool) (audio : Controller.AudioStatus)

namespace Controller

/-- A step of either thread. -/
def step (config : CallConfig) (s : Controller) : CallEvent → Controller
  | .packet elapsed src datagram stale audio =>
      let s := s.wait elapsed
      if s.receiving then s.receive config src datagram stale audio else s
  | .socketFailed elapsed =>
      let s := s.wait elapsed
      if s.receiving then (s.setState .failed).stopReceiving else s
  | .tick elapsed p2p audio => (s.wait elapsed).tick config p2p audio

/-! ### What a step does to a failed call -/

section Failed

variable {config : CallConfig} {s : Controller}

/-- A packet establishes the call: it passes the window with stream data in it, and there
was an init ack. -/
def PacketEstablishes (config : CallConfig) (s : Controller) (src : DatagramEndpoint)
    (datagram : List UInt8) : Prop :=
  s.receiving = true ∧ s.receivedInitAck = true ∧ ∃ header stream,
    receivePacket config.crypto config.key config.isOutgoing src datagram =
        .ok (header, stream) ∧
      (receiveSeq s.window header.pseq s.clock).2 = true ∧ isStreamData header.type = true

/-- A tick establishes the call: it is at the last block, and the timer an init ack set is
due. -/
def TickEstablishes (s : Controller) : Prop :=
  s.tickBlock = .established ∧ s.setEstablishedAt > 0 ∧ s.time ≥ s.setEstablishedAt

/-- The steps that establish a call in whatever state it is. -/
def Establishes (config : CallConfig) (s : Controller) : CallEvent → Prop
  | .packet elapsed src datagram _ _ => PacketEstablishes config (s.wait elapsed) src datagram
  | .socketFailed _ => False
  | .tick _ _ _ => TickEstablishes s

@[simp] theorem fail_state (s : Controller) (error : CallError) :
    (s.fail error).state = .failed := rfl

/-- The streams of an init ack keep a failed call failed. -/
theorem handleStreams_failed (stream : BufferInputStream) (audio : AudioStatus)
    (h : s.state = .failed) : (s.handleStreams config stream audio).state = .failed := by
  have hcreate : (s.createAudioIo audio).1.state = .failed := by
    simp only [createAudioIo]
    split
    · exact h
    · split
      · rfl
      · exact h
  simp only [handleStreams]
  split
  · exact h
  · split
    · exact h
    · split
      · split
        · exact hcreate
        · exact hcreate
      · exact h

/-- An init keeps a failed call failed. -/
theorem handleInit_failed (stream : BufferInputStream) (h : s.state = .failed) :
    (s.handleInit stream).state = .failed := by
  simp only [handleInit]
  split
  · exact h
  · split
    · exact h
    · split
      · rfl
      · exact h

/-- An init ack keeps a failed call failed. -/
theorem handleInitAck_failed (packetInnerLen : ℕ) (stream : BufferInputStream)
    (audio : AudioStatus) (h : s.state = .failed) :
    (s.handleInitAck config packetInnerLen stream audio).state = .failed := by
  simp only [handleInitAck]
  split
  · exact h
  · split
    · split
      · exact h
      · split
        · exact h
        · split
          · rfl
          · exact handleStreams_failed _ _ h
    · exact handleStreams_failed _ _ h

/-- A rejected datagram keeps a failed call failed. -/
theorem handleRejection_failed (rejection : Rejection) (h : s.state = .failed) :
    (s.handleRejection rejection).state = .failed := by
  cases rejection <;> first | exact h | rfl

/-- The types of the handlers differ. -/
theorem type_of_isStreamData {type : UInt8} (h : isStreamData type = true) :
    type ≠ PKT_INIT ∧ type ≠ PKT_INIT_ACK := by
  constructor
  · rintro rfl
    exact absurd h (by decide)
  · rintro rfl
    exact absurd h (by decide)

/-- A packet keeps a failed call failed, unless it is stream data behind an init ack. -/
theorem handlePacket_failed (header : PacketHeader) (stream : BufferInputStream) (stale : ℕ)
    (audio : AudioStatus) (h : s.state = .failed) :
    (s.handlePacket config header stream stale audio).state = .failed ↔
      ¬(s.receivedInitAck = true ∧ isStreamData header.type = true) := by
  simp only [handlePacket]
  split
  · rename_i htype
    simp only [handleInit_failed stream h, true_iff]
    rintro ⟨-, hdata⟩
    exact (type_of_isStreamData hdata).1 htype
  · split
    · rename_i htype
      simp only [handleInitAck_failed _ stream audio h, true_iff]
      rintro ⟨-, hdata⟩
      exact (type_of_isStreamData hdata).2 htype
    · split
      · rename_i hdata
        cases hack : s.receivedInitAck with
        | true => simp [handleStreamData, h, hack, hdata, setState]
        | false => simp [handleStreamData, h, hack]
      · rename_i hdata
        simp [h, hdata]

/-- A datagram keeps a failed call failed, unless it establishes it. -/
theorem receive_failed (src : DatagramEndpoint) (datagram : List UInt8) (stale : ℕ)
    (audio : AudioStatus) (hreceiving : s.receiving = true) (h : s.state = .failed) :
    (s.receive config src datagram stale audio).state = .failed ↔
      ¬PacketEstablishes config s src datagram := by
  simp only [receive, PacketEstablishes]
  split
  · rename_i rejection hreject
    simp [handleRejection_failed rejection h, hreject]
  · rename_i header stream hparsed
    cases hpassed : (receiveSeq s.window header.pseq s.clock).2 with
    | false => simp [h, hparsed, hpassed]
    | true =>
        simp only [if_true]
        rw [handlePacket_failed _ _ _ _ (by exact h)]
        simp [hreceiving, hparsed, hpassed]

/-- A block of the tick thread keeps a failed call failed, unless it establishes it. -/
theorem tick_failed (p2p : Bool) (audio : AudioStatus) (h : s.state = .failed) :
    (s.tick config p2p audio).state = .failed ↔ ¬TickEstablishes s := by
  cases hblock : s.tickBlock with
  | start =>
      by_cases hinit : s.connectionInitTime = 0
      · simp [tick, TickEstablishes, hblock, hinit, h]
      · simp [tick, TickEstablishes, hblock, hinit, h]
  | audio => simp [tick, tickAudio, TickEstablishes, hblock, h]
  | sendInit => simp [tick, tickSendInit, TickEstablishes, hblock, h]
  | timeouts => simp [tick, tickTimeouts, TickEstablishes, hblock, h]
  | reconnecting => simp [tick, tickReconnecting, TickEstablishes, hblock, h]
  | established =>
      by_cases hdue : s.setEstablishedAt > 0 ∧ s.time ≥ s.setEstablishedAt
      · simp [tick, tickEstablished, TickEstablishes, hblock, h, hdue, setState]
      · simp [tick, tickEstablished, TickEstablishes, hblock, h, hdue]

/-- **What one step does to a failed call**: it stays failed, unless the step is one that
establishes a call. -/
theorem step_of_failed (event : CallEvent) (h : s.state = .failed) :
    (s.step config event).state = .failed ↔ ¬Establishes config s event := by
  cases event with
  | packet elapsed src datagram stale audio =>
      simp only [step, Establishes]
      split
      · rename_i hreceiving
        exact receive_failed src datagram stale audio hreceiving h
      · rename_i hreceiving
        have hwait : (s.wait elapsed).state = .failed := h
        simp [hwait, PacketEstablishes, hreceiving]
  | socketFailed elapsed =>
      simp only [step, Establishes, not_false_iff, iff_true]
      split
      · rfl
      · exact h
  | tick elapsed p2p audio =>
      exact tick_failed p2p audio (s := s.wait elapsed) h

/-! ### Over whole runs -/

/-- Once the call is failed, it stays failed to the end of the run. -/
def FailureFinal (config : CallConfig) (s : Controller) (events : List CallEvent) : Prop :=
  ∀ before after rest, events = before ++ (after ++ rest) →
    (Machine.run (step config) s before).state = .failed →
    (Machine.run (step config) s (before ++ after)).state = .failed

/-- No step establishes the call while it is failed. -/
def NeverRevived (config : CallConfig) : Controller → List CallEvent → Prop :=
  Machine.AllSteps (step config) fun s event =>
    s.state = .failed → ¬Establishes config s event

/-- A failed call of a run without such a step stays failed. -/
theorem failed_run {events : List CallEvent} (h : s.state = .failed)
    (hnever : NeverRevived config s events) :
    (Machine.run (step config) s events).state = .failed := by
  induction events generalizing s with
  | nil => exact h
  | cons event events ih =>
      exact ih ((step_of_failed event h).mpr (hnever.1 h)) hnever.2

/-- What holds of all steps of a run holds of those from any of its states on. -/
theorem neverRevived_append {before after : List CallEvent} :
    NeverRevived config s (before ++ after) ↔
      NeverRevived config s before ∧
        NeverRevived config (Machine.run (step config) s before) after := by
  induction before generalizing s with
  | nil => simp [NeverRevived, Machine.AllSteps]
  | cons event before ih =>
      simp only [NeverRevived, List.cons_append, Machine.AllSteps, Machine.run_cons] at ih ⊢
      rw [ih, and_assoc]

/-- **Failure is final** in exactly the runs in which no step establishes the call while it
is failed. -/
theorem failure_final_iff (config : CallConfig) (s : Controller) (events : List CallEvent) :
    FailureFinal config s events ↔ NeverRevived config s events := by
  constructor
  · intro hfinal
    induction events generalizing s with
    | nil => trivial
    | cons event events ih =>
        refine ⟨fun hfailed => ?_, ih _ ?_⟩
        · exact (step_of_failed event hfailed).mp (hfinal [] [event] events rfl hfailed)
        · intro before after rest hevents hfailed
          exact hfinal (event :: before) after rest (by rw [hevents]; rfl) hfailed
  · rintro hnever before after rest rfl hfailed
    obtain ⟨-, hafter⟩ := neverRevived_append.mp hnever
    obtain ⟨hafter, -⟩ := neverRevived_append.mp hafter
    rw [Machine.run_append]
    exact failed_run hfailed hafter

end Failed

/-- A callee with the timeouts of the configuration. -/
def callee : CallConfig where
  crypto := plainCrypto
  key := zeroKey
  isOutgoing := false
  initTimeout := 30000000000
  recvTimeout := 20000000000
  reconnectingTimeout := 2000000000
  establishedDelay := 1500000000

/-- A datagram of the caller. -/
def callerDatagram (pseq : BitVec 32) (type : UInt8) (payload : List UInt8) : List UInt8 :=
  (sendPending plainCrypto zeroKey true false true true (freshHeader .waitInitAck) zeroRandom
    pseq type payload zeroRelay).getD []

/-- Devices that work. -/
def workingAudio : AudioStatus :=
  ⟨false, true, true⟩

/-- Half a minute passes without a packet. -/
def initTimeoutEvents : List CallEvent :=
  [.tick 30000000000 false workingAudio, .tick 0 false workingAudio,
    .tick 0 false workingAudio, .tick 0 false workingAudio]

/-- The init ack of the caller arrives, and then stream data. -/
def lateCallerEvents : List CallEvent :=
  [.packet 1 zeroRelay
      (callerDatagram 1 PKT_INIT_ACK [3, 0, 0, 0, 3, 0, 0, 0, 1, 1, 1, 1, 60, 0, 1]) 0
      workingAudio,
    .packet 1 zeroRelay (callerDatagram 2 PKT_STREAM_DATA [1, 1, 0, 0, 0, 0, 7]) 0
      workingAudio]

/-- **A failed call comes back**: the init timeout fails it, and the receive thread, which
still runs, establishes it when the caller turns up. -/
theorem failure_final_lateCaller :
    ¬∀ (config : CallConfig) (now : ℕ+) (events : List CallEvent),
      FailureFinal config (connected now) events := by
  intro hall
  have hfailed : (Machine.run (step callee) (connected 1) initTimeoutEvents).state =
      .failed := by
    decide +kernel
  have hestablished : (Machine.run (step callee) (connected 1)
      (initTimeoutEvents ++ lateCallerEvents)).state = .established := by
    decide +kernel
  have hfinal := hall callee 1 (initTimeoutEvents ++ lateCallerEvents) initTimeoutEvents
    lateCallerEvents [] (by rw [List.append_nil]) hfailed
  rw [hestablished] at hfinal
  exact absurd hfinal (by decide)

end Controller

end Telegraph.VoIP
