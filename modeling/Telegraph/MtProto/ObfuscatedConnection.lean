import Telegraph.MtProto.AesCtr
import Telegraph.MtProto.TcpConnection

/-!
# The Encryption of a TCP Connection

The first thing that a connection writes is 64 random bytes, with a mark in them. They hold the keys
of both directions: the one of what is written as it stands, the one of what is read backwards. From
then on everything is encrypted in counter mode, packet by packet on the way out and read by read on
the way in, while the server takes the two streams as they come.

## Main results

* `step_reads`: a connection reads what one without encryption reads of the decrypted bytes.
* `obfuscated_run`: **both sides read what the other one has written**, in every run.
-/

open Bytes CounterMode

namespace Telegraph.MtProto

/-- `arc4random_buf(controlBytes, 64)`. -/
abbrev RandomBytes := { bytes : List UInt8 // bytes.length = 64 }

/-- The `controlBytes`, with their `controlVersion`. -/
def controlBytes (random : RandomBytes) : List UInt8 :=
  random.1.take 56 ++ List.replicate 4 0xef ++ random.1.drop 60

@[simp] theorem length_controlBytes (random : RandomBytes) : (controlBytes random).length = 64 := by
  have h := random.2
  rw [controlBytes, List.length_append, List.length_append, List.length_take,
    List.length_replicate, List.length_drop]
  omega

/-- The cipher whose key and initial vector stand in 64 bytes. -/
def cipherOf (bytes : List UInt8) : MTAesCtr :=
  .init ((bytes.drop 8).take 32) ((bytes.drop (8 + 32)).take 16)

/-- An `MTTcpConnection` with encryption: what it has written to its socket, and what it reads. -/
structure ObfuscatedConnection where
  addedControlHeader : Bool
  outgoingAesCtr : Option MTAesCtr
  incomingAesCtr : Option MTAesCtr
  written : List UInt8
  reader : TcpConnection

/-- What happens to a connection: data is sent, with bytes that are drawn if they are needed, or a
byte arrives. -/
inductive ConnectionEvent where
  | sendDatas (datas : List (List UInt8)) (requestQuickAck : Bool) (random : RandomBytes)
  | receive (byte : UInt8)

namespace ObfuscatedConnection

/-- A connection that is opened. -/
def opened : ObfuscatedConnection := ⟨false, none, none, [], .opened⟩

variable (cipher : BlockCipher)

/-- One of an `MTAesCtr` that may be `nil`, in which case the buffer stays as it is. -/
def encryptIn (ctr : Option MTAesCtr) (input : List UInt8) : List UInt8 × Option MTAesCtr :=
  match ctr with
  | none => (List.replicate input.length 0, none)
  | some ctr =>
      let (out, ctr) := ctr.encryptIn cipher input
      (out, some ctr)

/-- The round of `sendDatas:` for one data. -/
def sendData (requestQuickAck : Bool) (random : RandomBytes) (c : ObfuscatedConnection)
    (data : List UInt8) : ObfuscatedConnection :=
  let packetData := packetData data requestQuickAck
  if c.addedControlHeader then
    let (encryptedData, outgoing) := encryptIn cipher c.outgoingAesCtr packetData
    { c with outgoingAesCtr := outgoing, written := c.written ++ encryptedData }
  else
    let controlBytes := controlBytes random
    let (encryptedControlBytes, outgoing) :=
      (cipherOf controlBytes).encryptIn cipher controlBytes
    let (encryptedData, outgoing) := outgoing.encryptIn cipher packetData
    { c with
      addedControlHeader := true
      outgoingAesCtr := some outgoing
      incomingAesCtr := some (cipherOf controlBytes.reverse)
      written := c.written ++
        (controlBytes.take 56 ++ encryptedControlBytes.drop 56 ++ encryptedData) }

/-- `sendDatas:completion:requestQuickAck:expectDataInResponse:`. A closed connection sends
nothing. -/
def sendDatas (c : ObfuscatedConnection) (datas : List (List UInt8)) (requestQuickAck : Bool)
    (random : RandomBytes) : ObfuscatedConnection :=
  if c.reader.reading = none then c
  else datas.foldl (sendData cipher requestQuickAck random) c

/-- A byte arrives at the socket, and what is read is decrypted once it is full. -/
def receive (c : ObfuscatedConnection) (byte : UInt8) : ObfuscatedConnection :=
  match c.reader.reading with
  | none => c
  | some request =>
      if (c.reader.received ++ [byte]).length = request.length then
        let (data, incoming) := encryptIn cipher c.incomingAesCtr (c.reader.received ++ [byte])
        { c with
          incomingAesCtr := incoming
          reader := { c.reader with received := [] }.didReadData data request.tag }
      else
        { c with reader := { c.reader with received := c.reader.received ++ [byte] } }

/-- The connection goes on. -/
def step (c : ObfuscatedConnection) : ConnectionEvent → ObfuscatedConnection
  | .sendDatas datas requestQuickAck random => sendDatas cipher c datas requestQuickAck random
  | .receive byte => receive cipher c byte

/-! ### The server -/

/-- The stream with the key and the initial vector that stand in the first bytes. -/
def streamOf (bytes : List UInt8) : ℕ → UInt8 :=
  MTAesCtr.keyStream cipher ((bytes.drop 8).take 32) (beNat ((bytes.drop (8 + 32)).take 16))

/-- What the server reads of what is written. -/
def serverReads (written : List UInt8) : List UInt8 :=
  xorFrom (streamOf cipher (written.take 64)) 0 written

/-- What the server writes for a text, by the first bytes that it has read, taken backwards. -/
def serverWrites (header text : List UInt8) : List UInt8 :=
  xorFrom (streamOf cipher header.reverse) 0 text

/-- The first bytes that are written. -/
def header (random : RandomBytes) : List UInt8 :=
  (controlBytes random).take 56 ++
    (xorFrom (streamOf cipher (controlBytes random)) 0 (controlBytes random)).drop 56

/-- The packets of a run. -/
def packets (es : List ConnectionEvent) : List UInt8 :=
  es.flatMap fun
    | .sendDatas datas requestQuickAck _ =>
        datas.flatMap fun data => packetData data requestQuickAck
    | .receive _ => []

/-- The bytes that arrive in a run. -/
def receivedBytes (es : List ConnectionEvent) : List UInt8 :=
  es.flatMap fun
    | .sendDatas .. => []
    | .receive byte => [byte]

variable {cipher} {random : RandomBytes} {sent raw : List UInt8} {c : ObfuscatedConnection}

/-- The bytes of events that each bring one. -/
theorem receivedBytes_map (bytes : List UInt8) :
    receivedBytes (bytes.map ConnectionEvent.receive) = bytes := by
  induction bytes with
  | nil => rfl
  | cons byte bytes ih =>
      rw [List.map_cons, receivedBytes, List.flatMap_cons, ← receivedBytes, ih,
        List.singleton_append]

/-! ### Keys -/

/-- The bytes that the keys of both directions stand in. -/
def keyPart (bytes : List UInt8) : List UInt8 := (bytes.drop 8).take 48

/-- The stream is told by these bytes. -/
theorem streamOf_congr {bytes other : List UInt8} (h : keyPart bytes = keyPart other) :
    streamOf cipher bytes = streamOf cipher other := by
  have hkey : ∀ bytes : List UInt8, (bytes.drop 8).take 32 = (keyPart bytes).take 32 := by
    intro bytes
    rw [keyPart, List.take_take]
    rfl
  have hiv : ∀ bytes : List UInt8, (bytes.drop (8 + 32)).take 16 = (keyPart bytes).drop 32 := by
    intro bytes
    rw [keyPart, List.drop_take, List.drop_drop]
  rw [streamOf, streamOf, hkey, hkey, hiv, hiv, h]

/-- They are the same backwards. -/
theorem keyPart_reverse {bytes : List UInt8} (h : bytes.length = 64) :
    keyPart bytes.reverse = (keyPart bytes).reverse := by
  rw [keyPart, keyPart, List.drop_reverse, List.take_reverse, List.drop_take, h, List.length_take,
    h]
  rfl

/-- The first bytes that are written have those of the control bytes. -/
theorem keyPart_header : keyPart (header cipher random) = keyPart (controlBytes random) := by
  have hlength : ((controlBytes random).take 56).length = 56 := by
    rw [List.length_take, length_controlBytes]
    rfl
  have hpart : ∀ rest : List UInt8, keyPart ((controlBytes random).take 56 ++ rest) =
      ((controlBytes random).take 56).drop 8 := by
    intro rest
    rw [keyPart, List.drop_append_of_le_length (by omega),
      List.take_left' (by rw [List.length_drop, hlength])]
  rw [header, hpart, List.drop_take]
  rfl

@[simp] theorem length_header : (header cipher random).length = 64 := by
  rw [header, List.length_append, List.length_take, List.length_drop, length_xorFrom,
    length_controlBytes]
  rfl

/-- A cipher that has not been used. -/
theorem at_cipherOf (cipher : BlockCipher) {bytes : List UInt8} (h : bytes.length = 64) :
    MTAesCtr.At cipher ((bytes.drop 8).take 32) (beNat ((bytes.drop (8 + 32)).take 16)) 0
      (cipherOf bytes) :=
  MTAesCtr.at_init cipher _ (by rw [List.length_take, List.length_drop, h]; rfl)

/-! ### Writing -/

/-- A cipher that stands at a place of the stream of some bytes. -/
def StandsAt (cipher : BlockCipher) (bytes : List UInt8) (place : ℕ) (ctr : Option MTAesCtr) :
    Prop :=
  ∃ used, ctr = some used ∧
    MTAesCtr.At cipher ((bytes.drop 8).take 32) (beNat ((bytes.drop (8 + 32)).take 16)) place used

/-- What is encrypted from a place on. -/
theorem StandsAt.encryptIn {bytes : List UInt8} {place : ℕ} {ctr : Option MTAesCtr}
    (h : StandsAt cipher bytes place ctr) (input : List UInt8) :
    (ObfuscatedConnection.encryptIn cipher ctr input).1 =
        xorFrom (streamOf cipher bytes) place input ∧
      StandsAt cipher bytes (place + input.length)
        (ObfuscatedConnection.encryptIn cipher ctr input).2 := by
  obtain ⟨used, rfl, hat⟩ := h
  obtain ⟨hout, hat'⟩ := MTAesCtr.encryptIn_at hat input
  exact ⟨hout, _, rfl, hat'⟩

/-- What a connection has written, once it has sent the bytes of its packets. -/
structure Wrote (cipher : BlockCipher) (random : RandomBytes) (sent : List UInt8)
    (c : ObfuscatedConnection) : Prop where
  added : c.addedControlHeader = true
  stands : StandsAt cipher (controlBytes random) (64 + sent.length) c.outgoingAesCtr
  written : c.written =
    header cipher random ++ xorFrom (streamOf cipher (controlBytes random)) 64 sent

/-- The first data is sent. -/
theorem sendData_first (cipher : BlockCipher) (requestQuickAck : Bool) (random : RandomBytes)
    (data : List UInt8) :
    Wrote cipher random (packetData data requestQuickAck)
      (sendData cipher requestQuickAck random opened data) := by
  have hat := at_cipherOf cipher (length_controlBytes random)
  obtain ⟨hheader, hat'⟩ := MTAesCtr.encryptIn_at hat (controlBytes random)
  rw [Nat.zero_add, length_controlBytes] at hat'
  obtain ⟨hdata, hat''⟩ := MTAesCtr.encryptIn_at hat' (packetData data requestQuickAck)
  refine ⟨rfl, ⟨_, rfl, hat''⟩, ?_⟩
  rw [header, streamOf, ← hheader, ← hdata]
  rfl

/-- Further data is sent. -/
theorem Wrote.sendData (h : Wrote cipher random sent c) (requestQuickAck : Bool)
    (other : RandomBytes) (data : List UInt8) :
    Wrote cipher random (sent ++ packetData data requestQuickAck)
      (ObfuscatedConnection.sendData cipher requestQuickAck other c data) := by
  obtain ⟨hout, hstands⟩ := h.stands.encryptIn (packetData data requestQuickAck)
  rw [ObfuscatedConnection.sendData]
  dsimp only
  rw [if_pos h.added]
  refine ⟨h.added, ?_, ?_⟩
  · rw [List.length_append, ← Nat.add_assoc]
    exact hstands
  · show c.written ++ _ = _
    rw [h.written, hout, xorFrom_append, List.append_assoc]

/-- A list of data is sent. -/
theorem Wrote.foldl (h : Wrote cipher random sent c) (requestQuickAck : Bool)
    (other : RandomBytes) (datas : List (List UInt8)) :
    Wrote cipher random (sent ++ datas.flatMap fun data => packetData data requestQuickAck)
      (datas.foldl (ObfuscatedConnection.sendData cipher requestQuickAck other) c) := by
  induction datas generalizing sent c with
  | nil =>
      rw [List.flatMap_nil, List.append_nil]
      exact h
  | cons data datas ih =>
      rw [List.flatMap_cons, ← List.append_assoc]
      exact ih (h.sendData requestQuickAck other data)

/-- Sending leaves what is read, and the cipher of it once there is one. -/
theorem foldl_reader (cipher : BlockCipher) (c : ObfuscatedConnection) (requestQuickAck : Bool)
    (other : RandomBytes) (datas : List (List UInt8)) :
    (datas.foldl (sendData cipher requestQuickAck other) c).reader = c.reader ∧
      (c.addedControlHeader = true →
        (datas.foldl (sendData cipher requestQuickAck other) c).incomingAesCtr =
          c.incomingAesCtr) := by
  induction datas generalizing c with
  | nil => exact ⟨rfl, fun _ => rfl⟩
  | cons data datas ih =>
      have hone : (sendData cipher requestQuickAck other c data).reader = c.reader ∧
          (c.addedControlHeader = true →
            (sendData cipher requestQuickAck other c data).addedControlHeader = true ∧
              (sendData cipher requestQuickAck other c data).incomingAesCtr =
                c.incomingAesCtr) := by
        rw [sendData]
        dsimp only
        split
        · next hadded => exact ⟨rfl, fun _ => ⟨hadded, rfl⟩⟩
        · next hadded => exact ⟨rfl, fun hyes => absurd hyes hadded⟩
      obtain ⟨hreader, hincoming⟩ := ih (sendData cipher requestQuickAck other c data)
      refine ⟨hreader.trans hone.1, fun hadded => ?_⟩
      obtain ⟨hadded', hsame⟩ := hone.2 hadded
      exact (hincoming hadded').trans hsame

/-! ### Reading -/

/-- What a connection without encryption is after some bytes, and what the connection has got of
these bytes: it is the same, with the bytes of the pending read still encrypted. -/
structure ReadsAs (cipher : BlockCipher) (random : RandomBytes) (raw : List UInt8)
    (plain : TcpConnection) (c : ObfuscatedConnection) : Prop where
  reader : ∃ place,
    c.reader = { plain with
      received := xorFrom (streamOf cipher (controlBytes random).reverse) place plain.received } ∧
    (plain.reading ≠ none →
      StandsAt cipher (controlBytes random).reverse place c.incomingAesCtr ∧
        place + plain.received.length = raw.length)

/-- What is read is not kept. -/
theorem didReadData_received (reader : TcpConnection) (data : List UInt8) (tag : ReadTag) :
    (reader.didReadData data tag).received = reader.received := by
  have hpacket : ∀ (reader : TcpConnection) (length : ℕ),
      (reader.readPacket length).received = reader.received := by
    intro reader length
    rw [TcpConnection.readPacket]
    split
    · exact TcpConnection.readData_received _ _ _
    · exact TcpConnection.readData_received _ _ _
  cases tag with
  | packetShortLength =>
      simp only [TcpConnection.didReadData]
      split
      · rfl
      · split
        · exact hpacket _ _
        · split <;> rfl
  | packetLongLength =>
      simp only [TcpConnection.didReadData]
      split
      · rfl
      · exact hpacket _ _
  | packetHead => rfl
  | packetBody => rfl
  | quickAck => rfl

/-- A connection that keeps nothing. -/
theorem eq_with_received {reader : TcpConnection} (h : reader.received = []) :
    reader = { reader with received := [] } := by
  obtain ⟨_, _, _, _, _, _⟩ := reader
  subst h
  rfl

/-- **A byte is read as by a connection without encryption**, from the decrypted byte. -/
theorem ReadsAs.receive {plain : TcpConnection} (h : ReadsAs cipher random raw plain c)
    (byte : UInt8) :
    ReadsAs cipher random (raw ++ [byte])
      (plain.feed (byte ^^^ streamOf cipher (controlBytes random).reverse raw.length))
      (ObfuscatedConnection.receive cipher c byte) := by
  obtain ⟨place, hreader, hopen⟩ := h.reader
  rw [ObfuscatedConnection.receive, TcpConnection.feed, hreader]
  cases hreading : plain.reading with
  | none =>
      refine ⟨place, ?_, fun hne => absurd hreading hne⟩
      dsimp only
      rw [hreader]
  | some request =>
      obtain ⟨hstands, hplace⟩ := hopen (by rw [hreading]; exact Option.some_ne_none _)
      have hbyte : xorFrom (streamOf cipher (controlBytes random).reverse) place plain.received ++
          [byte] = xorFrom (streamOf cipher (controlBytes random).reverse) place
            (plain.received ++
              [byte ^^^ streamOf cipher (controlBytes random).reverse raw.length]) := by
        rw [xorFrom_append, hplace, xorFrom, xorFrom_nil, UInt8.xor_assoc, UInt8.xor_self,
          UInt8.xor_zero]
      obtain ⟨hdata, hstands'⟩ := hstands.encryptIn (xorFrom
        (streamOf cipher (controlBytes random).reverse) place (plain.received ++
          [byte ^^^ streamOf cipher (controlBytes random).reverse raw.length]))
      rw [xorFrom_xorFrom] at hdata
      dsimp only
      rw [hbyte, length_xorFrom]
      split
      · have hnone := didReadData_received { plain with reading := some request, received := [] }
          (plain.received ++ [byte ^^^ streamOf cipher (controlBytes random).reverse raw.length])
          request.tag
        refine ⟨place + (plain.received ++
          [byte ^^^ streamOf cipher (controlBytes random).reverse raw.length]).length, ?_, ?_⟩
        · dsimp only
          rw [hnone, xorFrom_nil, hdata]
          exact eq_with_received hnone
        · intro _
          rw [length_xorFrom] at hstands'
          refine ⟨hstands', ?_⟩
          rw [hnone, List.length_append, List.length_append, ← hplace]
          rfl
      · refine ⟨place, rfl, fun _ => ⟨hstands, ?_⟩⟩
        rw [List.length_append, List.length_append, ← hplace]
        rfl

/-! ### Runs -/

/-- A closed connection stays closed. -/
theorem run_closed {reader : TcpConnection} (h : reader.reading = none) (bytes : List UInt8) :
    (Machine.run TcpConnection.feed reader bytes).reading = none := by
  induction bytes generalizing reader with
  | nil => exact h
  | cons byte bytes ih =>
      refine ih ?_
      rw [TcpConnection.feed, h]
      exact h

/-- The bytes that are decrypted of those that arrive. -/
abbrev plainBytes (cipher : BlockCipher) (random : RandomBytes) (raw : List UInt8) : List UInt8 :=
  xorFrom (streamOf cipher (controlBytes random).reverse) 0 raw

/-- **A connection reads what one without encryption reads** of the decrypted bytes, and has
written its packets, as long as that one is open. -/
theorem step_reads {es : List ConnectionEvent} (hwrote : Wrote cipher random sent c)
    (hreads : ReadsAs cipher random raw
      (Machine.run TcpConnection.feed .opened (plainBytes cipher random raw)) c)
    (hopen : (Machine.run TcpConnection.feed .opened
      (plainBytes cipher random (raw ++ receivedBytes es))).reading ≠ none) :
    Wrote cipher random (sent ++ packets es) (Machine.run (step cipher) c es) ∧
      ReadsAs cipher random (raw ++ receivedBytes es)
        (Machine.run TcpConnection.feed .opened
          (plainBytes cipher random (raw ++ receivedBytes es)))
        (Machine.run (step cipher) c es) := by
  induction es generalizing sent raw c with
  | nil =>
      rw [packets, receivedBytes, List.flatMap_nil, List.flatMap_nil, List.append_nil,
        List.append_nil]
      exact ⟨hwrote, hreads⟩
  | cons e es ih =>
      cases e with
      | sendDatas datas requestQuickAck other =>
          have hnow : c.reader.reading ≠ none := by
            obtain ⟨place, hreader, -⟩ := hreads.reader
            rw [hreader]
            intro hclosed
            have hclosed : (Machine.run TcpConnection.feed .opened
                (plainBytes cipher random raw)).reading = none := hclosed
            refine hopen ?_
            rw [plainBytes, xorFrom_append, Machine.run_append]
            exact run_closed hclosed _
          obtain ⟨hreader, hincoming⟩ := foldl_reader cipher c requestQuickAck other datas
          have hsame : ReadsAs cipher random raw
              (Machine.run TcpConnection.feed .opened (plainBytes cipher random raw))
              (datas.foldl (sendData cipher requestQuickAck other) c) := by
            obtain ⟨place, hread, hstands⟩ := hreads.reader
            exact ⟨place, hreader.trans hread, by rwa [hincoming hwrote.added]⟩
          rw [Machine.run_cons, step, sendDatas, if_neg hnow, packets, List.flatMap_cons,
            ← packets, ← List.append_assoc]
          exact ih (hwrote.foldl requestQuickAck other datas) hsame hopen
      | receive byte =>
          have hsplit : raw ++ receivedBytes (.receive byte :: es) =
              raw ++ [byte] ++ receivedBytes es := by
            rw [receivedBytes, List.flatMap_cons, ← receivedBytes, List.append_assoc]
          have hkept : Wrote cipher random sent (ObfuscatedConnection.receive cipher c byte) := by
            have hfields : (ObfuscatedConnection.receive cipher c byte).addedControlHeader =
                  c.addedControlHeader ∧
                (ObfuscatedConnection.receive cipher c byte).outgoingAesCtr = c.outgoingAesCtr ∧
                (ObfuscatedConnection.receive cipher c byte).written = c.written := by
              rw [ObfuscatedConnection.receive]
              split
              · exact ⟨rfl, rfl, rfl⟩
              · split
                · exact ⟨rfl, rfl, rfl⟩
                · exact ⟨rfl, rfl, rfl⟩
            obtain ⟨hadded, houtgoing, hwritten⟩ := hfields
            exact ⟨hadded.trans hwrote.added, houtgoing ▸ hwrote.stands,
              hwritten.trans hwrote.written⟩
          have hnext := hreads.receive byte
          have hfeed : (Machine.run TcpConnection.feed .opened
              (plainBytes cipher random (raw ++ [byte]))) =
                (Machine.run TcpConnection.feed .opened (plainBytes cipher random raw)).feed
                  (byte ^^^ streamOf cipher (controlBytes random).reverse raw.length) := by
            rw [plainBytes, xorFrom_append, Machine.run_append, Nat.zero_add]
            rfl
          rw [hsplit] at hopen ⊢
          rw [← hfeed] at hnext
          exact ih hkept hnext hopen

/-- The server reads the mark, what is random behind it, and the packets. -/
theorem Wrote.serverReads (h : Wrote cipher random sent c) :
    (ObfuscatedConnection.serverReads cipher c.written).drop 56 =
      List.replicate 4 0xef ++ random.1.drop 60 ++ sent := by
  have hrandom := random.2
  have hstream : streamOf cipher (c.written.take 64) = streamOf cipher (controlBytes random) := by
    rw [h.written, List.take_left' length_header]
    exact streamOf_congr keyPart_header
  have hwritten : c.written.drop 56 = xorFrom (streamOf cipher (controlBytes random)) 56
      ((controlBytes random).drop 56 ++ sent) := by
    have hfirst : ((controlBytes random).take 56).length = 56 := by
      rw [List.length_take, length_controlBytes]
      rfl
    have hrest : 56 + ((controlBytes random).drop 56).length = 64 := by
      rw [List.length_drop, length_controlBytes]
    rw [h.written, header, List.append_assoc, List.drop_left' hfirst, drop_xorFrom, xorFrom_append,
      hrest, Nat.zero_add]
  have hcontrol : (controlBytes random).drop 56 = List.replicate 4 0xef ++ random.1.drop 60 := by
    rw [controlBytes, List.append_assoc, List.drop_left' (by rw [List.length_take, hrandom]; rfl)]
  rw [ObfuscatedConnection.serverReads, drop_xorFrom, hstream, hwritten, Nat.zero_add,
    xorFrom_xorFrom, hcontrol]

/-- **Both sides read what the other one has written**, in every run that starts with something to
send: the server reads the packets, and the connection delivers the server's frames. -/
theorem obfuscated_run (cipher : BlockCipher) (random : RandomBytes) (requestQuickAck : Bool)
    (data : List UInt8) (datas : List (List UInt8)) (es : List ConnectionEvent)
    (frames : List Frame)
    (hframes : receivedBytes es =
      serverWrites cipher (header cipher random) (frames.flatMap Frame.bytes)) :
    let run := .sendDatas (data :: datas) requestQuickAck random :: es
    let c := Machine.run (step cipher) opened run
    (serverReads cipher c.written).drop 56 =
        List.replicate 4 0xef ++ random.1.drop 60 ++ packets run ∧
      c.reader.delivered = frames.map Frame.delivery := by
  intro run c
  have hstream : streamOf cipher (header cipher random).reverse =
      streamOf cipher (controlBytes random).reverse := by
    refine streamOf_congr ?_
    rw [keyPart_reverse length_header, keyPart_reverse (length_controlBytes random), keyPart_header]
  have hplain : plainBytes cipher random (receivedBytes es) = frames.flatMap Frame.bytes := by
    rw [plainBytes, hframes, serverWrites, hstream, xorFrom_xorFrom]
  obtain ⟨hidle, hdelivered⟩ := feed_idle TcpConnection.idle_opened frames
  have hopen : (Machine.run TcpConnection.feed .opened
      (plainBytes cipher random ([] ++ receivedBytes es))).reading ≠ none := by
    rw [List.nil_append, hplain, hidle.reading]
    exact Option.some_ne_none _
  have hfirst := (sendData_first cipher requestQuickAck random data).foldl
    requestQuickAck random datas
  obtain ⟨hreader, hincoming⟩ := foldl_reader cipher
    (sendData cipher requestQuickAck random opened data) requestQuickAck random datas
  have hreads : ReadsAs cipher random []
      (Machine.run TcpConnection.feed .opened (plainBytes cipher random []))
      (datas.foldl (sendData cipher requestQuickAck random)
        (sendData cipher requestQuickAck random opened data)) := by
    refine ⟨0, hreader, fun _ => ⟨?_, rfl⟩⟩
    rw [hincoming rfl]
    exact ⟨_, rfl, at_cipherOf cipher (by rw [List.length_reverse, length_controlBytes])⟩
  obtain ⟨hwrote, hread⟩ := step_reads hfirst hreads hopen
  have hrun : c = Machine.run (step cipher) (datas.foldl (sendData cipher requestQuickAck random)
      (sendData cipher requestQuickAck random opened data)) es := rfl
  constructor
  · rw [hrun, hwrote.serverReads]
    rfl
  · obtain ⟨place, hreader', -⟩ := hread.reader
    rw [hrun, hreader', List.nil_append, hplain]
    exact hdelivered

/-- Bytes that are all the same. -/
def someBytes : RandomBytes := ⟨List.replicate 64 7, List.length_replicate⟩

/-- A quick ack. -/
def someFrame : Frame := .quickAck ⟨0x80, 1, 2, 3, by decide⟩

/-- A packet goes out, and a quick ack comes back. -/
theorem obfuscated_run_quickAck :
    let es := (serverWrites complementCipher (header complementCipher someBytes)
      ([someFrame].flatMap Frame.bytes)).map ConnectionEvent.receive
    let run := .sendDatas [[1, 2, 3, 4]] false someBytes :: es
    let c := Machine.run (step complementCipher) opened run
    (serverReads complementCipher c.written).drop 56 =
        List.replicate 4 0xef ++ someBytes.1.drop 60 ++ packets run ∧
      c.reader.delivered = [someFrame].map Frame.delivery :=
  obfuscated_run complementCipher someBytes false [1, 2, 3, 4] [] _ [someFrame]
    (receivedBytes_map _)

end ObfuscatedConnection

end Telegraph.MtProto
