import Telegraph.Lib.Machine
import Telegraph.MtProto.InternalMessage
import Telegraph.MtProto.TLBytes

/-!
# The Auth-Key Handshake

`MTDatacenterAuthMessageService` negotiates an auth key in three requests: `req_pq`,
`req_DH_params` and `set_client_DH_params`. It is a machine of five stages and a dozen
stored fields, driven by the messages it receives, by the completion blocks of its
transactions, which may run late, and by failures and resets at any time.

Hashes, ciphers and big-number arithmetic are parameters, and every event carries the
random bytes and the keys of the context that its handler would ask for. Two fields exist
for the statements only: `resets` counts the resets, and `reports` lists what was reported
to the delegate, each with the count at that moment. The validity times of the salt,
floating-point functions of the message's time, are left out.

## Main results

* `moves_step`: everything one event can do to the service.
* `history_step`: one event keeps the history of the handshake.
* `auth_reports_sound`: **every report goes back to an accepted `server_DH_params` answer
  and a matching `dh_gen_ok` of the same handshake**, with no reset between, and there is
  at most one between two resets.
-/

open Bytes

namespace Telegraph.MtProto

/-! ### What the service is given -/

/-- A public key of the server. -/
structure PublicKey where
  key : List UInt8
  fingerprint : BitVec 64
deriving DecidableEq

/-- The functions the service calls out to. -/
structure AuthCrypto where
  /-- `MTSha1`. -/
  sha1 : List UInt8 → List UInt8
  /-- `MTAesDecrypt(data, key, iv)`. -/
  aesDecrypt : List UInt8 → List UInt8 → List UInt8 → List UInt8
  /-- `MTAesEncrypt(data, key, iv)`. -/
  aesEncrypt : List UInt8 → List UInt8 → List UInt8 → List UInt8
  /-- `MTRsaEncrypt(key, data)`. -/
  rsaEncrypt : List UInt8 → List UInt8 → List UInt8
  /-- `MTFactorize`. -/
  factorize : BitVec 64 → Option (BitVec 64 × BitVec 64)
  /-- `MTExp(base, exponent, modulus)`. -/
  exp : List UInt8 → List UInt8 → List UInt8 → List UInt8
  /-- `MTCheckIsSafeGAOrB(gAOrB, p)`. -/
  checkIsSafeGAOrB : List UInt8 → List UInt8 → Bool
  /-- `MTCheckMod(p, g)`. -/
  checkMod : List UInt8 → ℕ → Bool
  /-- `MTCheckIsSafePrime(p)`. -/
  checkIsSafePrime : List UInt8 → Bool

/-- An `MTProto` as the service sees it. -/
structure AuthConfig where
  crypto : AuthCrypto
  cdn : Bool
  defaultPublicKeys : List PublicKey

/-- The random bytes a handler draws. -/
structure AuthRandom where
  newNonce : List UInt8
  b : List UInt8
  rsaData : ℕ → UInt8
  rsaPrefix : ℕ → UInt8
  clientData : ℕ → UInt8

/-! ### The service -/

/-- `MTDatacenterAuthStage`. -/
inductive AuthStage where
  | waitingForPublicKeys
  | pq
  | reqDH
  | keyVerification
  | done
deriving DecidableEq

/-- `MTDatacenterAuthInfo`, with the salt of its one salt set. -/
structure AuthInfo where
  authKey : List UInt8
  authKeyId : BitVec 64
  salt : BitVec 64
deriving DecidableEq

/-- The fields of the service; `raised` once a handler has thrown. -/
structure AuthService where
  stage : AuthStage
  currentStageMessageId : BitVec 64
  currentStageMessageSeqNo : BitVec 32
  currentStageTransactionId : Option ℕ
  nonce : Option (List UInt8)
  serverNonce : Option (List UInt8)
  newNonce : Option (List UInt8)
  dhP : Option (List UInt8)
  dhQ : Option (List UInt8)
  dhPublicKeyFingerprint : BitVec 64
  dhEncryptedData : Option (List UInt8)
  authInfo : Option AuthInfo
  encryptedClientData : Option (List UInt8)
  publicKeys : Option (List PublicKey)
  raised : Bool
  resets : ℕ
  reports : List (ℕ × Option AuthInfo)
deriving DecidableEq

/-- The service before it is added to an `MTProto`. -/
def AuthService.init : AuthService where
  stage := .waitingForPublicKeys
  currentStageMessageId := 0
  currentStageMessageSeqNo := 0
  currentStageTransactionId := none
  nonce := none
  serverNonce := none
  newNonce := none
  dhP := none
  dhQ := none
  dhPublicKeyFingerprint := 0
  dhEncryptedData := none
  authInfo := none
  encryptedClientData := none
  publicKeys := none
  raised := false
  resets := 0
  reports := []

/-- The three requests the service makes. -/
inductive AuthRequest where
  | reqPq
  | reqDh
  | setDhParams
deriving DecidableEq

/-- The stage a request belongs to. -/
def AuthRequest.stage : AuthRequest → AuthStage
  | .reqPq => .pq
  | .reqDh => .reqDH
  | .setDhParams => .keyVerification

/-- `reset:`, where `contextKeys` is what the context has for a CDN datacenter. -/
def AuthService.reset (cfg : AuthConfig) (contextKeys : Option (List PublicKey))
    (s : AuthService) : AuthService :=
  { s with
    currentStageMessageId := 0
    currentStageMessageSeqNo := 0
    currentStageTransactionId := none
    nonce := none
    serverNonce := none
    newNonce := none
    dhP := none
    dhQ := none
    dhPublicKeyFingerprint := 0
    dhEncryptedData := none
    authInfo := none
    encryptedClientData := none
    publicKeys := if cfg.cdn then contextKeys else some cfg.defaultPublicKeys
    stage := if cfg.cdn ∧ contextKeys = none then .waitingForPublicKeys else .pq
    resets := s.resets + 1 }

/-- `mtProtoPublicKeysUpdated:datacenterId:publicKeys:`. -/
def AuthService.publicKeysUpdated (sameDatacenter : Bool)
    (publicKeys : Option (List PublicKey)) (s : AuthService) : AuthService :=
  if s.stage = .waitingForPublicKeys ∧ sameDatacenter = true then
    if (publicKeys.getD []).length ≠ 0 then
      { s with publicKeys := publicKeys, stage := .pq }
    else { s with publicKeys := publicKeys }
  else s

/-- `mtProtoMessageTransaction:`; the nonce is drawn with the first `req_pq`. -/
def AuthService.messageTransaction (nonceBytes : List UInt8) (s : AuthService) : AuthService :=
  if s.currentStageTransactionId = none ∧ s.stage = .pq ∧ s.nonce = none then
    { s with nonce := some nonceBytes }
  else s

/-- The data of the request of the current stage. -/
def AuthService.requestData (s : AuthService) : Option (List UInt8) :=
  match s.stage with
  | .pq => some (toLE 4 0x60469778 ++ s.nonce.getD [])
  | .reqDH => do
      let dhP ← tlBytes s.dhP
      let dhQ ← tlBytes s.dhQ
      let dhEncryptedData ← tlBytes s.dhEncryptedData
      pure (toLE 4 0xd712e4be ++ s.nonce.getD [] ++ s.serverNonce.getD [] ++ dhP ++ dhQ ++
        toLE 8 s.dhPublicKeyFingerprint.toNat ++ dhEncryptedData)
  | .keyVerification => do
      let encryptedClientData ← tlBytes s.encryptedClientData
      pure (toLE 4 0xf5045f1f ++ s.nonce.getD [] ++ s.serverNonce.getD [] ++
        encryptedClientData)
  | _ => none

/-- What a transaction reports for a message that was sent. -/
structure SentMessage where
  messageId : BitVec 64
  seqNo : BitVec 32
  transactionId : ℕ

/-- The completion block of a request, with what the transport has for its message. -/
def AuthService.completion (request : AuthRequest) (sent : Option SentMessage)
    (s : AuthService) : AuthService :=
  match sent with
  | none => s
  | some sent =>
      if s.stage = request.stage then
        { s with
          currentStageMessageId := sent.messageId
          currentStageMessageSeqNo := sent.seqNo
          currentStageTransactionId := some sent.transactionId }
      else s

/-- `transactionsMayHaveFailed:`, and `mtProtoAllTransactionsMayHaveFailed:` for the ids
of all transactions. -/
def AuthService.transactionsMayHaveFailed (failed : ℕ → Bool) (s : AuthService) : AuthService :=
  match s.currentStageTransactionId with
  | some transactionId =>
      if failed transactionId then { s with currentStageTransactionId := none } else s
  | none => s

/-! ### The `resPQ` answer -/

/-- `selectPublicKey`. -/
def selectPublicKey (fingerprints : List (BitVec 64)) (publicKeys : List PublicKey) :
    Option PublicKey :=
  publicKeys.find? fun k => fingerprints.contains k.fingerprint

/-- The key `receivedMessage:` takes for a `resPQ`. -/
def AuthService.publicKeyFor (cfg : AuthConfig) (fingerprints : List (BitVec 64))
    (s : AuthService) : Option PublicKey :=
  match selectPublicKey fingerprints (s.publicKeys.getD []) with
  | some publicKey => some publicKey
  | none =>
      match fingerprints, s.publicKeys.getD [] with
      | [fingerprint], [publicKey] =>
          if cfg.cdn then some ⟨publicKey.key, fingerprint⟩ else none
      | _, _ => none

/-- The big-endian bytes of a `uint64_t`, at least one, most significant first. -/
def bigEndianBytes : ℕ → ℕ → List UInt8
  | 0, _ => []
  | fuel + 1, n =>
      if n / 256 = 0 then [UInt8.ofNat n] else bigEndianBytes fuel (n / 256) ++ [UInt8.ofNat n]

/-- The `uint64_t` of a big-endian byte string: `pq <<= 8; pq |= byte`. -/
def pqOfBytes (pq : List UInt8) : BitVec 64 :=
  pq.foldl (fun acc b => (acc <<< 8) ||| BitVec.ofNat 64 b.toNat) 0

/-- The `p_q_inner_data` of the request, encrypted for the server. -/
def encryptInnerData (cfg : AuthConfig) (random : AuthRandom) (publicKey : PublicKey)
    (innerData : List UInt8) : List UInt8 :=
  let hashed := cfg.crypto.sha1 innerData ++ innerData
  let dataWithHash := hashed ++ (List.range (255 - hashed.length)).map random.rsaData
  let encryptedData := cfg.crypto.rsaEncrypt publicKey.key dataWithHash
  (List.range (256 - encryptedData.length)).map random.rsaPrefix ++ encryptedData

/-- `receivedMessage:` for a `resPQ` in stage `pq`. -/
def AuthService.receivedResPq (cfg : AuthConfig) (contextKeys : Option (List PublicKey))
    (random : AuthRandom) (nonce serverNonce pq : List UInt8)
    (fingerprints : List (BitVec 64)) (s : AuthService) : AuthService :=
  if s.nonce ≠ some nonce then s
  else
    match s.publicKeyFor cfg fingerprints with
    | none => s.reset cfg contextKeys
    | some publicKey =>
        match cfg.crypto.factorize (pqOfBytes pq) with
        | none => s.reset cfg contextKeys
        | some (factP, factQ) =>
            let dhP := bigEndianBytes 8 factP.toNat
            let dhQ := bigEndianBytes 8 factQ.toNat
            match tlBytes (some pq), tlBytes (some dhP), tlBytes (some dhQ) with
            | some pqTL, some dhPTL, some dhQTL =>
                let innerData := toLE 4 0x83c95aec ++ pqTL ++ dhPTL ++ dhQTL ++ nonce ++
                  serverNonce ++ random.newNonce
                { s with
                  serverNonce := some serverNonce
                  newNonce := some random.newNonce
                  dhP := some dhP
                  dhQ := some dhQ
                  dhPublicKeyFingerprint := publicKey.fingerprint
                  dhEncryptedData := some (encryptInnerData cfg random publicKey innerData)
                  stage := .reqDH
                  currentStageMessageId := 0
                  currentStageMessageSeqNo := 0
                  currentStageTransactionId := none }
            | _, _, _ => { s with raised := true }

/-! ### The `server_DH_params` answer -/

/-- The three nonces of one handshake. -/
structure Handshake where
  nonce : List UInt8
  serverNonce : List UInt8
  newNonce : List UInt8
deriving DecidableEq

/-- `server_DH_inner_data`. -/
structure ServerDhInnerData where
  nonce : List UInt8
  serverNonce : List UInt8
  g : BitVec 32
  dhPrime : List UInt8
  gA : List UInt8
  serverTime : BitVec 32
deriving DecidableEq

/-- `tmpAesKey`. -/
def Handshake.tmpAesKey (cfg : AuthConfig) (h : Handshake) : List UInt8 :=
  cfg.crypto.sha1 (h.newNonce ++ h.serverNonce) ++
    (cfg.crypto.sha1 (h.serverNonce ++ h.newNonce)).take 12

/-- `tmpAesIv`. -/
def Handshake.tmpAesIv (cfg : AuthConfig) (h : Handshake) : List UInt8 :=
  ((cfg.crypto.sha1 (h.serverNonce ++ h.newNonce)).drop 12).take 8 ++
    cfg.crypto.sha1 (h.newNonce ++ h.newNonce) ++ h.newNonce.take 4

/-- The loop that strips up to 15 bytes of padding off the answer until its hash fits;
stripping an empty answer raises. -/
def stripPadding (sha1 : List UInt8 → List UInt8) (answerHash : List UInt8) :
    ℕ → List UInt8 → Outcome (List UInt8)
  | 0, _ => .failed
  | n + 1, answerData =>
      if sha1 answerData = answerHash then .value answerData
      else if answerData = [] then .raised
      else stripPadding sha1 answerHash n answerData.dropLast

/-- The inner data of an answer: decrypted, its hash verified, and parsed. -/
def decryptAnswer (cfg : AuthConfig) (h : Handshake) (encryptedResponse : List UInt8) :
    Outcome ServerDhInnerData :=
  let answerWithHash :=
    cfg.crypto.aesDecrypt encryptedResponse (h.tmpAesKey cfg) (h.tmpAesIv cfg)
  if answerWithHash.length < 20 then .raised
  else
    match stripPadding cfg.crypto.sha1 (answerWithHash.take 20) 16 (answerWithHash.drop 20) with
    | .failed => .failed
    | .raised => .raised
    | .value answerData =>
        match (parseInternalMessage answerData).outcome with
        | .raised => .raised
        | .value (.serverDhInnerData nonce serverNonce g dhPrime gA serverTime) =>
            .value ⟨nonce, serverNonce, g, dhPrime, gA, serverTime⟩
        | _ => .failed

/-- `MTCheckIsSafeG`. -/
def checkIsSafeG (g : ℕ) : Bool :=
  2 ≤ g && g ≤ 7

/-- What `receivedMessage:` checks of the inner data: both nonces and the four checks. -/
structure ServerDhInnerData.Checked (cfg : AuthConfig) (h : Handshake)
    (inner : ServerDhInnerData) : Prop where
  nonce : inner.nonce = h.nonce
  serverNonce : inner.serverNonce = h.serverNonce
  safeG : 0 ≤ inner.g.toInt ∧ checkIsSafeG inner.g.toNat = true
  safeGA : cfg.crypto.checkIsSafeGAOrB inner.gA inner.dhPrime = true
  mod : cfg.crypto.checkMod inner.dhPrime inner.g.toNat = true
  safePrime : cfg.crypto.checkIsSafePrime inner.dhPrime = true

instance (cfg : AuthConfig) (h : Handshake) (inner : ServerDhInnerData) :
    Decidable (inner.Checked cfg h) :=
  decidable_of_iff (inner.nonce = h.nonce ∧ inner.serverNonce = h.serverNonce ∧
      (0 ≤ inner.g.toInt ∧ checkIsSafeG inner.g.toNat = true) ∧
      cfg.crypto.checkIsSafeGAOrB inner.gA inner.dhPrime = true ∧
      cfg.crypto.checkMod inner.dhPrime inner.g.toNat = true ∧
      cfg.crypto.checkIsSafePrime inner.dhPrime = true)
    ⟨fun ⟨h1, h2, h3, h4, h5, h6⟩ => ⟨h1, h2, h3, h4, h5, h6⟩,
      fun ⟨h1, h2, h3, h4, h5, h6⟩ => ⟨h1, h2, h3, h4, h5, h6⟩⟩

/-- The auth info computed from checked inner data and the client's exponent `b`. -/
def authInfoOf (cfg : AuthConfig) (h : Handshake) (inner : ServerDhInnerData)
    (b : List UInt8) : AuthInfo :=
  let authKey := cfg.crypto.exp inner.gA b inner.dhPrime
  let authKeyHash := cfg.crypto.sha1 authKey
  { authKey := authKey
    authKeyId := BitVec.ofNat 64 (leNat (authKeyHash.drop (authKeyHash.length - 8)))
    salt := BitVec.ofNat 64
      (leNat ((List.zipWith (· ^^^ ·) h.newNonce h.serverNonce).take 8)) }

/-- `_encryptedClientData`: `client_DH_inner_data` with `g_b`, hashed, padded, encrypted. -/
def encryptClientData (cfg : AuthConfig) (h : Handshake) (inner : ServerDhInnerData)
    (random : AuthRandom) : Option (List UInt8) := do
  let gB ← tlBytes (some (cfg.crypto.exp (toLE 4 inner.g.toNat).reverse random.b inner.dhPrime))
  let innerData := toLE 4 0x6643b654 ++ h.nonce ++ h.serverNonce ++ toLE 8 0 ++ gB
  let hashed := cfg.crypto.sha1 innerData ++ innerData
  let padded := hashed ++ (List.range ((16 - hashed.length % 16) % 16)).map random.clientData
  pure (cfg.crypto.aesEncrypt padded (h.tmpAesKey cfg) (h.tmpAesIv cfg))

/-- The nonces the service holds. -/
def AuthService.handshake (s : AuthService) : Handshake where
  nonce := s.nonce.getD []
  serverNonce := s.serverNonce.getD []
  newNonce := s.newNonce.getD []

/-- `receivedMessage:` for a `server_DH_params_ok` in stage `reqDH`. -/
def AuthService.receivedServerDhParamsOk (cfg : AuthConfig)
    (contextKeys : Option (List PublicKey)) (random : AuthRandom)
    (nonce serverNonce encryptedResponse : List UInt8) (s : AuthService) : AuthService :=
  if s.nonce = some nonce ∧ s.serverNonce = some serverNonce then
    match decryptAnswer cfg s.handshake encryptedResponse with
    | .raised => { s with raised := true }
    | .failed => s.reset cfg contextKeys
    | .value inner =>
        if inner.Checked cfg s.handshake then
          match encryptClientData cfg s.handshake inner random with
          | none => { s with raised := true }
          | some encryptedClientData =>
              { s with
                authInfo := some (authInfoOf cfg s.handshake inner random.b)
                encryptedClientData := some encryptedClientData
                stage := .keyVerification
                currentStageMessageId := 0
                currentStageMessageSeqNo := 0
                currentStageTransactionId := none }
        else s.reset cfg contextKeys
  else s

/-- `receivedMessage:` for a `server_DH_params_fail` in stage `reqDH`. -/
def AuthService.receivedServerDhParamsFail (cfg : AuthConfig)
    (contextKeys : Option (List PublicKey)) (nonce serverNonce : List UInt8)
    (s : AuthService) : AuthService :=
  if s.nonce = some nonce ∧ s.serverNonce = some serverNonce then s.reset cfg contextKeys
  else s

/-! ### The `set_client_DH_params` answer -/

/-- `newNonceHash1`, `2` and `3`: the last 16 bytes of `SHA1(new_nonce, i,
SHA1(auth_key)[0..8))`. -/
def newNonceHash (cfg : AuthConfig) (i : UInt8) (newNonce authKey : List UInt8) : List UInt8 :=
  let full := cfg.crypto.sha1 (newNonce ++ [i] ++ (cfg.crypto.sha1 authKey).take 8)
  (full.drop (full.length - 16)).take 16

/-- `receivedMessage:` for a `dh_gen_ok` in stage `keyVerification`: the one place that
reports to the delegate. -/
def AuthService.receivedDhGenOk (cfg : AuthConfig) (contextKeys : Option (List PublicKey))
    (nonce serverNonce nextNonceHash1 : List UInt8) (s : AuthService) : AuthService :=
  if s.nonce = some nonce ∧ s.serverNonce = some serverNonce then
    if newNonceHash cfg 1 (s.newNonce.getD [])
        ((s.authInfo.map AuthInfo.authKey).getD []) ≠ nextNonceHash1 then
      s.reset cfg contextKeys
    else
      { s with
        stage := .done
        currentStageMessageId := 0
        currentStageMessageSeqNo := 0
        currentStageTransactionId := none
        reports := s.reports ++ [(s.resets, s.authInfo)] }
  else s

/-- `receivedMessage:` for a `dh_gen_retry` or `dh_gen_fail` in stage `keyVerification`:
whether its hash fits or not, the service is reset. -/
def AuthService.receivedDhGenOther (cfg : AuthConfig) (contextKeys : Option (List PublicKey))
    (nonce serverNonce : List UInt8) (s : AuthService) : AuthService :=
  if s.nonce = some nonce ∧ s.serverNonce = some serverNonce then s.reset cfg contextKeys
  else s

/-- `mtProto:receivedMessage:`. -/
def AuthService.receivedMessage (cfg : AuthConfig) (contextKeys : Option (List PublicKey))
    (random : AuthRandom) (body : InternalMessage) (s : AuthService) : AuthService :=
  match s.stage, body with
  | .pq, .resPq nonce serverNonce pq fingerprints =>
      s.receivedResPq cfg contextKeys random nonce serverNonce pq fingerprints
  | .reqDH, .serverDhParamsOk nonce serverNonce encryptedResponse =>
      s.receivedServerDhParamsOk cfg contextKeys random nonce serverNonce encryptedResponse
  | .reqDH, .serverDhParamsFail nonce serverNonce _ =>
      s.receivedServerDhParamsFail cfg contextKeys nonce serverNonce
  | .keyVerification, .setClientDhParamsResponseOk nonce serverNonce nextNonceHash1 =>
      s.receivedDhGenOk cfg contextKeys nonce serverNonce nextNonceHash1
  | .keyVerification, .setClientDhParamsResponseRetry nonce serverNonce _ =>
      s.receivedDhGenOther cfg contextKeys nonce serverNonce
  | .keyVerification, .setClientDhParamsResponseFail nonce serverNonce _ =>
      s.receivedDhGenOther cfg contextKeys nonce serverNonce
  | _, _ => s

/-! ### Events -/

/-- What can happen to the service, in any order. -/
inductive AuthEvent where
  /-- The service is added, or a protocol error is received. -/
  | reset (contextKeys : Option (List PublicKey))
  | publicKeysUpdated (sameDatacenter : Bool) (publicKeys : Option (List PublicKey))
  | messageTransaction (nonceBytes : List UInt8)
  /-- The completion block of a transaction made earlier. -/
  | completion (request : AuthRequest) (sent : Option SentMessage)
  | receivedMessage (body : InternalMessage) (random : AuthRandom)
      (contextKeys : Option (List PublicKey))
  | transactionsMayHaveFailed (failed : ℕ → Bool)

/-- One event. After an exception nothing happens any more. -/
def AuthService.step (cfg : AuthConfig) (s : AuthService) (ev : AuthEvent) : AuthService :=
  if s.raised then s
  else
    match ev with
    | .reset contextKeys => s.reset cfg contextKeys
    | .publicKeysUpdated sameDatacenter publicKeys =>
        s.publicKeysUpdated sameDatacenter publicKeys
    | .messageTransaction nonceBytes => s.messageTransaction nonceBytes
    | .completion request sent => s.completion request sent
    | .receivedMessage body random contextKeys => s.receivedMessage cfg contextKeys random body
    | .transactionsMayHaveFailed failed => s.transactionsMayHaveFailed failed

/-! ### What one event can do -/

/-- The service holds the three nonces of the handshake `h`. -/
structure AuthService.Holds (s : AuthService) (h : Handshake) : Prop where
  nonce : s.nonce = some h.nonce
  serverNonce : s.serverNonce = some h.serverNonce
  newNonce : s.newNonce = some h.newNonce

/-- The nonces a service holds are those of its `handshake`. -/
theorem AuthService.Holds.handshake_eq {s : AuthService} {h : Handshake} (hs : s.Holds h) :
    s.handshake = h := by
  simp [AuthService.handshake, hs.nonce, hs.serverNonce, hs.newNonce]

/-- In `s`, the event `ev` is a `server_DH_params_ok` of the handshake `h` whose inner data
passes every check, and `info` is the auth info computed from it. -/
structure Accepts (cfg : AuthConfig) (s : AuthService) (ev : AuthEvent) (h : Handshake)
    (info : AuthInfo) : Prop where
  stage : s.stage = .reqDH
  holds : s.Holds h
  answer : ∃ encryptedResponse inner random contextKeys,
    ev = .receivedMessage
      (.serverDhParamsOk h.nonce h.serverNonce encryptedResponse) random contextKeys ∧
    decryptAnswer cfg h encryptedResponse = .value inner ∧
    inner.Checked cfg h ∧
    info = authInfoOf cfg h inner random.b

/-- In `s`, the event `ev` is a `dh_gen_ok` of the handshake `h` with the hash that goes
with the key of `info`, which the service has stored. -/
structure Confirms (cfg : AuthConfig) (s : AuthService) (ev : AuthEvent) (h : Handshake)
    (info : AuthInfo) : Prop where
  stage : s.stage = .keyVerification
  holds : s.Holds h
  authInfo : s.authInfo = some info
  answer : ∃ random contextKeys,
    ev = .receivedMessage
      (.setClientDhParamsResponseOk h.nonce h.serverNonce
        (newNonceHash cfg 1 h.newNonce info.authKey)) random contextKeys

/-- The ways an event `ev` can take the service from `s` to `s'`. -/
inductive AuthService.Moves (cfg : AuthConfig) (s : AuthService) (ev : AuthEvent)
    (s' : AuthService) : Prop where
  /-- Only the bookkeeping of the current request changes, or the first nonce is drawn. -/
  | quiet (stage : s'.stage = s.stage) (holds : ∀ h, s.Holds h → s'.Holds h)
      (authInfo : s'.authInfo = s.authInfo) (resets : s'.resets = s.resets)
      (reports : s'.reports = s.reports)
  /-- The awaited public keys arrive. -/
  | keys (waiting : s.stage = .waitingForPublicKeys)
      (stage : s'.stage = .waitingForPublicKeys ∨ s'.stage = .pq)
      (resets : s'.resets = s.resets) (reports : s'.reports = s.reports)
  | reset (stage : s'.stage = .waitingForPublicKeys ∨ s'.stage = .pq)
      (resets : s'.resets = s.resets + 1) (reports : s'.reports = s.reports)
  /-- A `resPQ` is answered. -/
  | asked (h : Handshake) (pq : s.stage = .pq) (stage : s'.stage = .reqDH)
      (holds : s'.Holds h) (resets : s'.resets = s.resets) (reports : s'.reports = s.reports)
  | accepted (h : Handshake) (info : AuthInfo) (accepts : Accepts cfg s ev h info)
      (stage : s'.stage = .keyVerification) (holds : s'.Holds h)
      (authInfo : s'.authInfo = some info) (resets : s'.resets = s.resets)
      (reports : s'.reports = s.reports)
  | confirmed (h : Handshake) (info : AuthInfo) (confirms : Confirms cfg s ev h info)
      (stage : s'.stage = .done) (resets : s'.resets = s.resets)
      (reports : s'.reports = s.reports ++ [(s.resets, some info)])

/-- What is stored from `reqDH` on: the nonces, and in `keyVerification` the auth info. -/
structure AuthService.Stored (s : AuthService) : Prop where
  nonces : s.stage = .reqDH ∨ s.stage = .keyVerification → ∃ h, s.Holds h
  authInfo : s.stage = .keyVerification → ∃ info, s.authInfo = some info

section Moves

variable {cfg : AuthConfig} {s : AuthService} {ev : AuthEvent}

/-- A service left alone moves quietly. -/
theorem moves_self : s.Moves cfg ev s :=
  .quiet rfl (fun _ h => h) rfl rfl rfl

/-- A handler that raises changes nothing else. -/
theorem moves_raised : s.Moves cfg ev { s with raised := true } :=
  .quiet rfl (fun _ h => ⟨h.nonce, h.serverNonce, h.newNonce⟩) rfl rfl rfl

theorem moves_reset (contextKeys : Option (List PublicKey)) :
    s.Moves cfg ev (s.reset cfg contextKeys) := by
  refine .reset ?_ rfl rfl
  unfold AuthService.reset
  dsimp only
  split
  · exact .inl rfl
  · exact .inr rfl

theorem moves_publicKeysUpdated (sameDatacenter : Bool)
    (publicKeys : Option (List PublicKey)) :
    s.Moves cfg ev (s.publicKeysUpdated sameDatacenter publicKeys) := by
  unfold AuthService.publicKeysUpdated
  split
  case isTrue hw =>
    split
    · exact .keys hw.1 (.inr rfl) rfl rfl
    · exact .keys hw.1 (.inl hw.1) rfl rfl
  case isFalse => exact moves_self

theorem moves_messageTransaction (nonceBytes : List UInt8) :
    s.Moves cfg ev (s.messageTransaction nonceBytes) := by
  unfold AuthService.messageTransaction
  split
  case isTrue hn =>
    refine .quiet rfl (fun h hs => ?_) rfl rfl rfl
    have := hs.nonce
    rw [hn.2.2] at this
    contradiction
  case isFalse => exact moves_self

theorem moves_completion (request : AuthRequest) (sent : Option SentMessage) :
    s.Moves cfg ev (s.completion request sent) := by
  unfold AuthService.completion
  split
  · exact moves_self
  · split
    · exact .quiet rfl (fun _ h => ⟨h.nonce, h.serverNonce, h.newNonce⟩) rfl rfl rfl
    · exact moves_self

theorem moves_transactionsMayHaveFailed (failed : ℕ → Bool) :
    s.Moves cfg ev (s.transactionsMayHaveFailed failed) := by
  unfold AuthService.transactionsMayHaveFailed
  split
  · split
    · exact .quiet rfl (fun _ h => ⟨h.nonce, h.serverNonce, h.newNonce⟩) rfl rfl rfl
    · exact moves_self
  · exact moves_self

/-- A `resPQ` in stage `pq` is ignored, answered, or resets the service. -/
theorem moves_receivedResPq (hpq : s.stage = .pq) (contextKeys : Option (List PublicKey))
    (random : AuthRandom) (nonce serverNonce pq : List UInt8)
    (fingerprints : List (BitVec 64)) :
    s.Moves cfg ev
      (s.receivedResPq cfg contextKeys random nonce serverNonce pq fingerprints) := by
  unfold AuthService.receivedResPq
  split
  case isTrue => exact moves_self
  case isFalse hn =>
    split
    · exact moves_reset contextKeys
    · split
      · exact moves_reset contextKeys
      · dsimp only
        split
        · exact .asked ⟨nonce, serverNonce, random.newNonce⟩ hpq rfl
            ⟨not_not.mp hn, rfl, rfl⟩ rfl rfl
        · exact moves_raised

/-- A `server_DH_params_ok` in stage `reqDH` is ignored, accepted, or resets the service. -/
theorem moves_receivedServerDhParamsOk (hs : s.Stored) (hstage : s.stage = .reqDH)
    (contextKeys : Option (List PublicKey)) (random : AuthRandom)
    (nonce serverNonce encryptedResponse : List UInt8) :
    s.Moves cfg
      (.receivedMessage (.serverDhParamsOk nonce serverNonce encryptedResponse) random
        contextKeys)
      (s.receivedServerDhParamsOk cfg contextKeys random nonce serverNonce
        encryptedResponse) := by
  obtain ⟨h, hh⟩ := hs.nonces (.inl hstage)
  unfold AuthService.receivedServerDhParamsOk
  rw [hh.handshake_eq]
  split
  case isFalse => exact moves_self
  case isTrue hn =>
    obtain ⟨rfl⟩ : nonce = h.nonce := Option.some.inj (hn.1.symm.trans hh.nonce)
    obtain ⟨rfl⟩ : serverNonce = h.serverNonce :=
      Option.some.inj (hn.2.symm.trans hh.serverNonce)
    split
    · exact moves_raised
    · exact moves_reset contextKeys
    · rename_i inner hdec
      split
      case isFalse => exact moves_reset contextKeys
      case isTrue hchecked =>
        split
        · exact moves_raised
        · exact .accepted h (authInfoOf cfg h inner random.b)
            ⟨hstage, hh, encryptedResponse, inner, random, contextKeys, rfl, hdec, hchecked,
              rfl⟩
            rfl ⟨hh.nonce, hh.serverNonce, hh.newNonce⟩ rfl rfl rfl

/-- A `dh_gen_ok` in stage `keyVerification` is ignored, completes the handshake, or resets
the service. -/
theorem moves_receivedDhGenOk (hs : s.Stored) (hstage : s.stage = .keyVerification)
    (contextKeys : Option (List PublicKey)) (random : AuthRandom)
    (nonce serverNonce nextNonceHash1 : List UInt8) :
    s.Moves cfg
      (.receivedMessage (.setClientDhParamsResponseOk nonce serverNonce nextNonceHash1) random
        contextKeys)
      (s.receivedDhGenOk cfg contextKeys nonce serverNonce nextNonceHash1) := by
  obtain ⟨h, hh⟩ := hs.nonces (.inr hstage)
  obtain ⟨info, hinfo⟩ := hs.authInfo hstage
  unfold AuthService.receivedDhGenOk
  simp only [hinfo, hh.newNonce, Option.map_some, Option.getD_some]
  split
  case isFalse => exact moves_self
  case isTrue hn =>
    obtain ⟨rfl⟩ : nonce = h.nonce := Option.some.inj (hn.1.symm.trans hh.nonce)
    obtain ⟨rfl⟩ : serverNonce = h.serverNonce :=
      Option.some.inj (hn.2.symm.trans hh.serverNonce)
    split
    case isTrue => exact moves_reset contextKeys
    case isFalse hhash =>
      obtain rfl := not_not.mp hhash
      exact .confirmed h info ⟨hstage, hh, hinfo, random, contextKeys, rfl⟩ rfl rfl rfl

/-- A message resets the service or moves it one stage forward, or nothing happens. -/
theorem moves_receivedMessage (hs : s.Stored) (contextKeys : Option (List PublicKey))
    (random : AuthRandom) (body : InternalMessage) :
    s.Moves cfg (.receivedMessage body random contextKeys)
      (s.receivedMessage cfg contextKeys random body) := by
  unfold AuthService.receivedMessage
  split
  case h_1 hpq => exact moves_receivedResPq hpq contextKeys random _ _ _ _
  case h_2 hdh => exact moves_receivedServerDhParamsOk hs hdh contextKeys random _ _ _
  case h_3 =>
    unfold AuthService.receivedServerDhParamsFail
    split
    · exact moves_reset contextKeys
    · exact moves_self
  case h_4 hkey => exact moves_receivedDhGenOk hs hkey contextKeys random _ _ _
  case h_5 | h_6 =>
    unfold AuthService.receivedDhGenOther
    split
    · exact moves_reset contextKeys
    · exact moves_self
  case h_7 => exact moves_self

/-- **Everything one event can do to the service.** -/
theorem moves_step (hs : s.Stored) (ev : AuthEvent) : s.Moves cfg ev (s.step cfg ev) := by
  unfold AuthService.step
  split
  · exact moves_self
  · cases ev with
    | reset contextKeys => exact moves_reset contextKeys
    | publicKeysUpdated sameDatacenter publicKeys =>
        exact moves_publicKeysUpdated sameDatacenter publicKeys
    | messageTransaction nonceBytes => exact moves_messageTransaction nonceBytes
    | completion request sent => exact moves_completion request sent
    | receivedMessage body random contextKeys =>
        exact moves_receivedMessage hs contextKeys random body
    | transactionsMayHaveFailed failed => exact moves_transactionsMayHaveFailed failed

end Moves

/-! ### The history of a handshake -/

section History

variable (cfg : AuthConfig)

/-- The state a run of the service reaches. -/
def AuthService.after (es : List AuthEvent) : AuthService :=
  Machine.run (AuthService.step cfg) .init es

/-- The report `r` of the run `es` is sound: an event of the run accepted the answer that
the reported auth info was computed from, a later one confirmed its key, and the number of
resets was that of the report at both. -/
def ReportSound (es : List AuthEvent) (r : ℕ × Option AuthInfo) : Prop :=
  ∃ h info es₁ ev es₂ ev' es₃,
    es = es₁ ++ ev :: (es₂ ++ ev' :: es₃) ∧
    r = ((AuthService.after cfg es₁).resets, some info) ∧
    Accepts cfg (AuthService.after cfg es₁) ev h info ∧
    Confirms cfg (AuthService.after cfg (es₁ ++ ev :: es₂)) ev' h info ∧
    (AuthService.after cfg (es₁ ++ ev :: es₂)).resets = (AuthService.after cfg es₁).resets

/-- The history of the handshake in progress after the run `es`. -/
structure AuthHistory (es : List AuthEvent) (s : AuthService) : Prop where
  /-- From `reqDH` on the service holds the nonces of a handshake. -/
  nonces : s.stage = .reqDH → ∃ h, s.Holds h
  /-- In `keyVerification`, the stored auth info was accepted since the latest reset. -/
  accepted : s.stage = .keyVerification → ∃ h info es₁ ev es₂,
    s.Holds h ∧ s.authInfo = some info ∧ es = es₁ ++ ev :: es₂ ∧
    Accepts cfg (AuthService.after cfg es₁) ev h info ∧
    (AuthService.after cfg es₁).resets = s.resets
  reports : ∀ r ∈ s.reports, ReportSound cfg es r
  /-- Only a service that is done has reported since the latest reset. -/
  numbers : ∀ r ∈ s.reports, r.1 ≤ s.resets ∧ (r.1 = s.resets → s.stage = .done)
  nodup : (s.reports.map Prod.fst).Nodup

variable {cfg} {es : List AuthEvent} {s s' : AuthService} {r : ℕ × Option AuthInfo}

@[simp] theorem after_append_singleton (ev : AuthEvent) :
    AuthService.after cfg (es ++ [ev]) = (AuthService.after cfg es).step cfg ev := by
  simp [AuthService.after]

/-- A sound report stays sound when the run goes on. -/
theorem ReportSound.append (hr : ReportSound cfg es r) (ev : AuthEvent) :
    ReportSound cfg (es ++ [ev]) r := by
  obtain ⟨h, info, es₁, ev₁, es₂, ev₂, es₃, rfl, hrest⟩ := hr
  exact ⟨h, info, es₁, ev₁, es₂, ev₂, es₃ ++ [ev], by simp, hrest⟩

/-- The history stores what the handlers rely on. -/
theorem AuthHistory.stored (hs : AuthHistory cfg es s) : s.Stored where
  nonces := by
    rintro (hstage | hstage)
    · exact hs.nonces hstage
    · obtain ⟨h, -, -, -, -, hh, -⟩ := hs.accepted hstage
      exact ⟨h, hh⟩
  authInfo hstage := by
    obtain ⟨-, info, -, -, -, -, hinfo, -⟩ := hs.accepted hstage
    exact ⟨info, hinfo⟩

/-- A service that has not reported since the latest reset goes on without a report. -/
theorem AuthHistory.numbers_of_not_done (hs : AuthHistory cfg es s) (hstage : s.stage ≠ .done)
    (hr : r ∈ s.reports) : r.1 < s.resets := by
  obtain ⟨hle, hdone⟩ := hs.numbers r hr
  exact lt_of_le_of_ne hle fun h => hstage (hdone h)

theorem AuthHistory.init : AuthHistory cfg [] .init where
  nonces h := by simp [AuthService.init] at h
  accepted h := by simp [AuthService.init] at h
  reports := by simp [AuthService.init]
  numbers := by simp [AuthService.init]
  nodup := by simp [AuthService.init]

/-- A move to an early stage that reports nothing keeps the history, if it leaves a service
that has reported only by a reset. -/
theorem AuthHistory.of_early (hs : AuthHistory cfg es s) (ev : AuthEvent)
    (hstage : s'.stage = .waitingForPublicKeys ∨ s'.stage = .pq)
    (hreports : s'.reports = s.reports) (hnumbers : ∀ r ∈ s.reports, r.1 < s'.resets) :
    AuthHistory cfg (es ++ [ev]) s' where
  nonces h := by rcases hstage with h' | h' <;> simp [h'] at h
  accepted h := by rcases hstage with h' | h' <;> simp [h'] at h
  reports r hr := (hs.reports r (hreports ▸ hr)).append ev
  numbers r hr :=
    have hlt := hnumbers r (hreports ▸ hr)
    ⟨hlt.le, fun h => absurd h hlt.ne⟩
  nodup := hreports ▸ hs.nodup

/-- **One event keeps the history of the handshake.** -/
theorem history_step (hs : AuthHistory cfg es (AuthService.after cfg es)) (ev : AuthEvent)
    (hmoves : (AuthService.after cfg es).Moves cfg ev s') : AuthHistory cfg (es ++ [ev]) s' := by
  cases hmoves with
  | quiet hstage hholds hinfo hresets hreports =>
      refine ⟨fun h => ?_, fun h => ?_, fun r hr => ?_, fun r hr => ?_, hreports ▸ hs.nodup⟩
      · obtain ⟨h', hh'⟩ := hs.nonces (hstage ▸ h)
        exact ⟨h', hholds h' hh'⟩
      · obtain ⟨h', info, es₁, ev₁, es₂, hh', hi, hes, hacc, hr⟩ := hs.accepted (hstage ▸ h)
        exact ⟨h', info, es₁, ev₁, es₂ ++ [ev], hholds h' hh', hinfo.trans hi, by simp [hes],
          hacc, hr.trans hresets.symm⟩
      · exact (hs.reports r (hreports ▸ hr)).append ev
      · rw [hresets, hstage]
        exact hs.numbers r (hreports ▸ hr)
  | keys hwaiting hstage hresets hreports =>
      refine hs.of_early ev hstage hreports fun r hr => ?_
      rw [hresets]
      exact hs.numbers_of_not_done (by simp [hwaiting]) hr
  | reset hstage hresets hreports =>
      refine hs.of_early ev hstage hreports fun r hr => ?_
      have := (hs.numbers r hr).1
      omega
  | asked h hpq hstage hholds hresets hreports =>
      refine ⟨fun _ => ⟨h, hholds⟩, fun h' => ?_, fun r hr => ?_, fun r hr => ?_,
        hreports ▸ hs.nodup⟩
      · simp [hstage] at h'
      · exact (hs.reports r (hreports ▸ hr)).append ev
      · have hlt := hs.numbers_of_not_done (by simp [hpq]) (hreports ▸ hr)
        rw [hresets]
        exact ⟨hlt.le, fun h => absurd h hlt.ne⟩
  | accepted h info hacc hstage hholds hinfo hresets hreports =>
      refine ⟨fun h' => ?_, fun _ => ?_, fun r hr => ?_, fun r hr => ?_, hreports ▸ hs.nodup⟩
      · simp [hstage] at h'
      · exact ⟨h, info, es, ev, [], hholds, hinfo, rfl, hacc, hresets.symm⟩
      · exact (hs.reports r (hreports ▸ hr)).append ev
      · have hlt := hs.numbers_of_not_done (by simp [hacc.stage]) (hreports ▸ hr)
        rw [hresets]
        exact ⟨hlt.le, fun h => absurd h hlt.ne⟩
  | confirmed h info hconf hstage hresets hreports =>
      have hfresh : ∀ r ∈ (AuthService.after cfg es).reports,
          r.1 < (AuthService.after cfg es).resets :=
        fun r hr => hs.numbers_of_not_done (by simp [hconf.stage]) hr
      refine ⟨fun h' => ?_, fun h' => ?_, fun r hr => ?_, fun r hr => ?_, ?_⟩
      · simp [hstage] at h'
      · simp [hstage] at h'
      · rw [hreports, List.mem_append, List.mem_singleton] at hr
        rcases hr with hr | rfl
        · exact (hs.reports r hr).append ev
        · obtain ⟨h₁, info₁, es₁, ev₁, es₂, hh₁, hi₁, hes, hacc, hr₁⟩ :=
            hs.accepted hconf.stage
          obtain rfl : h₁ = h := hh₁.handshake_eq.symm.trans hconf.holds.handshake_eq
          obtain rfl : info₁ = info := Option.some.inj (hi₁.symm.trans hconf.authInfo)
          refine ⟨h₁, info₁, es₁, ev₁, es₂, ev, [], by simp [hes], by rw [hr₁], hacc, ?_, ?_⟩
          · rw [← hes]
            exact hconf
          · rw [← hes]
            exact hr₁.symm
      · rw [hresets, hstage]
        rw [hreports, List.mem_append, List.mem_singleton] at hr
        rcases hr with hr | rfl
        · exact ⟨(hfresh r hr).le, fun _ => rfl⟩
        · exact ⟨le_rfl, fun _ => rfl⟩
      · rw [hreports, List.map_append, List.nodup_append]
        refine ⟨hs.nodup, by simp, ?_⟩
        rintro n hn m hm rfl
        obtain ⟨r, hr, rfl⟩ := List.mem_map.mp hn
        simp only [List.map_cons, List.map_nil, List.mem_singleton] at hm
        have := hfresh r hr
        omega

/-- The history holds after every run. -/
theorem history_after (es : List AuthEvent) :
    AuthHistory cfg es (AuthService.after cfg es) := by
  induction es using List.reverseRecOn with
  | nil => exact .init
  | append_singleton es ev ih =>
      rw [after_append_singleton]
      exact history_step ih ev (moves_step ih.stored ev)

end History

/-- **Handshake safety.** In every run, every report goes back to a `server_DH_params`
answer that was accepted and to a `dh_gen_ok` that confirmed its key, both for the nonces
of one handshake and with no reset between, and no two reports fall between the same two
resets. -/
theorem auth_reports_sound (cfg : AuthConfig) (es : List AuthEvent) :
    (∀ r ∈ (AuthService.after cfg es).reports, ReportSound cfg es r) ∧
    ((AuthService.after cfg es).reports.map Prod.fst).Nodup :=
  ⟨(history_after es).reports, (history_after es).nodup⟩

/-- A handshake does complete: with a hash that is always zero, a cipher that does nothing
and checks that always pass, three answers lead to a report. -/
example : ∃ cfg es, (AuthService.after cfg es).reports.length = 1 :=
  let crypto : AuthCrypto :=
    ⟨fun _ => List.replicate 20 0, fun x _ _ => x, fun x _ _ => x, fun _ x => x,
      fun _ => some (3, 5), fun x _ _ => x, fun _ _ => true, fun _ _ => true, fun _ => true⟩
  let random : AuthRandom := ⟨List.replicate 32 2, [], fun _ => 0, fun _ => 0, fun _ => 0⟩
  let nonce := List.replicate 16 1
  let serverNonce := List.replicate 16 3
  let answer := List.replicate 20 0 ++ toLE 4 0xb5890dba ++ nonce ++ serverNonce ++
    toLE 4 3 ++ toLE 4 0 ++ toLE 4 0 ++ toLE 4 0
  ⟨⟨crypto, false, [⟨[], 7⟩]⟩,
    [.reset none, .messageTransaction nonce,
      .receivedMessage (.resPq nonce serverNonce [15] [7]) random none,
      .receivedMessage (.serverDhParamsOk nonce serverNonce answer) random none,
      .receivedMessage
        (.setClientDhParamsResponseOk nonce serverNonce (List.replicate 16 0)) random none],
    by decide +kernel⟩

end Telegraph.MtProto
