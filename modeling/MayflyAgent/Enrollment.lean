import MayflyAgent.CaSync

/-!
Enrollment, after `identity/enrollment.rs`, `identity/machine.rs`, `identity/api_client.rs`,
`service/backoff.rs` and the enrollment part of `service/daemon.rs`. Every access to a file,
the network, the environment or the clock is a call, and so is every access to the cell in
which the HTTP client keeps its last response. OpenSSH and JSON are functions of the platform.
-/
namespace MayflyAgent.Enrollment

open RustText Programs Checks Errors Bundles StateFiles CaSync

structure EnrollmentRequest where
  enrollmentToken : Text
  hostname : Text
  os : Text
  arch : Text
  agentVersion : Text
  publicKey : Text
  deriving DecidableEq

structure EnrollmentResponse where
  machineId : Text
  heartbeatInterval : UInt64
  syncInterval : UInt64
  serverIdentity : Text
  bundleSigningKey : Option Text
  deriving DecidableEq

/-- The paths of the key files are those of the service. Intervals are whole seconds. -/
structure MachineIdentity where
  machineId : Text
  hostname : Text
  publicKey : Text
  enrolledAt : Time
  serverUrl : Text
  heartbeatInterval : UInt64
  syncInterval : UInt64
  deriving DecidableEq

structure MachineRecord where
  machineId : Text
  hostname : Text
  serverUrl : Text
  heartbeatIntervalSecs : UInt64
  syncIntervalSecs : UInt64
  enrolledAtUnix : Int
  deriving DecidableEq

structure MachineKeypair where
  seed : Vector UInt8 32
  comment : Text
  deriving DecidableEq

/-- What an OpenSSH private key file holds. -/
inductive PrivateKey
  | ed25519 (keypair : MachineKeypair)
  | other

/-- The OpenSSH and JSON codecs and the constants of the build and the process. -/
structure Platform extends Crypto where
  privateKeyFromOpenssh : Text → Option PrivateKey
  privateKeyToOpenssh : MachineKeypair → Option Text
  publicKeyToOpenssh : MachineKeypair → Option Text
  requestToJson : EnrollmentRequest → Option Bytes
  responseFromJson : Bytes → Option EnrollmentResponse
  recordToJson : MachineRecord → Option Bytes
  recordFromJson : Bytes → Option MachineRecord
  os : Text
  arch : Text
  agentVersion : Text
  effectiveUid : UInt32

def tokenPrefix : Text := text "mf_enroll_"

def keyComment : Text := text "mayfly-agent machine identity"

def maxTokenLen : Nat := 256

def maxHostnameLen : Nat := 253

def maxLabelLen : Nat := 63

def maxMachineIdLen : Nat := 128

def minIntervalSecs : UInt64 := 1

def maxIntervalSecs : UInt64 := 86400

def stripPrefix (lead s : Text) : Option Text :=
  if lead.isPrefixOf s then some (s.drop lead.length) else none

def validateToken (token : Text) : Except Error Unit := do
  rejectIf (byteLength token > maxTokenLen ∨ token.any isControl = true) .invalidToken
  let suffix ← okOr (stripPrefix tokenPrefix token) .invalidToken
  rejectIf (suffix = [] ∨ suffix.all (fun c => c.isAlphanum || c == '_') = false) .invalidToken

def validateLabel (label : Text) : Except Error Unit := do
  rejectIf (label = [] ∨ byteLength label > maxLabelLen) .invalidHostname
  rejectIf (label.head? = some '-' ∨ label.getLast? = some '-') .invalidHostname
  rejectIf (label.all (fun c => c.isAlphanum || c == '-') = false) .invalidHostname

def validateHostname (hostname : Text) : Except Error Unit := do
  rejectIf (hostname = [] ∨ byteLength hostname > maxHostnameLen) .invalidHostname
  checkAll validateLabel (hostname.splitOn '.')

def validateServerUrl (url : Text) : Except Error Unit := do
  rejectIf (url ≠ trimText url) .invalidServerUrl
  let host ← okOr (stripPrefix (text "https://") url) .invalidServerUrl
  rejectIf (host = []) .invalidServerUrl

def isValidInterval (secs : UInt64) : Bool := minIntervalSecs ≤ secs && secs ≤ maxIntervalSecs

def isMachineIdChar (c : Char) : Bool := c.isAlphanum || c == '-' || c == '_' || c == '.'

def validateResponse (ext : Crypto) (response : EnrollmentResponse) : Except Error Unit := do
  rejectIf (response.machineId = []) (.invalidServerResponse .emptyMachineId)
  rejectIf (byteLength response.machineId > maxMachineIdLen ∨
    response.machineId.all isMachineIdChar = false) (.invalidServerResponse .invalidMachineId)
  rejectIf (isValidInterval response.heartbeatInterval = false ∨
    isValidInterval response.syncInterval = false) (.invalidServerResponse .intervalOutOfRange)
  (validateEd25519PublicKey ext response.serverIdentity).mapError fun _ =>
    .invalidServerResponse .invalidServerIdentity
  match response.bundleSigningKey with
  | none => .ok ()
  | some key => (validateEd25519PublicKey ext key).mapError fun _ =>
      .invalidServerResponse .invalidBundleSigningKey

/-- The range that the `time` crate can represent, the years -9999 to 9999. -/
def fromUnixTimestamp (seconds : Int) : Option Time :=
  if -377705116800 ≤ seconds ∧ seconds ≤ 253402300799 then some (seconds * nanosPerSecond)
  else none

def MachineIdentity.toRecord (identity : MachineIdentity) : MachineRecord where
  machineId := identity.machineId
  hostname := identity.hostname
  serverUrl := identity.serverUrl
  heartbeatIntervalSecs := identity.heartbeatInterval
  syncIntervalSecs := identity.syncInterval
  enrolledAtUnix := unixTimestamp identity.enrolledAt

def MachineRecord.intoIdentity (record : MachineRecord) (publicKey : Text) :
    Except Error MachineIdentity := do
  let enrolledAt ← okOr (fromUnixTimestamp record.enrolledAtUnix) .machineRecordInvalid
  pure {
    machineId := record.machineId
    hostname := record.hostname
    publicKey := publicKey
    enrolledAt := enrolledAt
    serverUrl := record.serverUrl
    heartbeatInterval := record.heartbeatIntervalSecs
    syncInterval := record.syncIntervalSecs
  }

inductive IdentityFile
  | privateKey
  | publicKey
  | record
  deriving DecidableEq

structure Metadata where
  isSymlink : Bool
  uid : UInt32
  mode : UInt32

inductive EnrollOp
  | isFile (file : IdentityFile)
  | symlinkMetadata (file : IdentityFile)
  | read (file : IdentityFile)
  | secureWrite (file : IdentityFile) (contents : Bytes) (mode : UInt32)
  | generateKey
  | enrollmentToken
  | connect
  | postJson (url : Text) (body : Bytes)
  | setLastResponse (response : EnrollmentResponse)
  | lastResponse
  | now
  | shutdownRequested
  | sleep (attempt : UInt32)
  | readState (file : StateFile)
  | writeState (file : StateFile) (contents : Bytes) (mode : UInt32)
  deriving DecidableEq

def EnrollOp.Answer : EnrollOp → Type
  | isFile _ => Bool
  | symlinkMetadata _ => Except ReadError Metadata
  | read _ => Except ReadError Bytes
  | secureWrite _ _ _ => Except Error Unit
  | generateKey => Option (Vector UInt8 32)
  | enrollmentToken => Option Text
  | connect => Except Error Unit
  | postJson _ _ => Except Error HttpResponse
  | setLastResponse _ => Unit
  | lastResponse => Option EnrollmentResponse
  | now => Time
  | shutdownRequested => Bool
  | sleep _ => Unit
  | readState _ => Except ReadError Bytes
  | writeState _ _ _ => Except Error Unit

abbrev enrollSignature : Signature := { Op := EnrollOp, Answer := EnrollOp.Answer }

abbrev EnrollAction := Action enrollSignature Error

abbrev EnrollEvent := Event enrollSignature

def ask (op : EnrollOp) : EnrollAction op.Answer := Action.perform (S := enrollSignature) op

def shutdownRequested : EnrollAction Bool := ask .shutdownRequested

def secureWrite (file : IdentityFile) (contents : Bytes) (mode : UInt32) : EnrollAction Unit := do
  let answer : Except Error Unit ← ask (.secureWrite file contents mode)
  Action.ofExcept answer

/-- A read that fails is an I/O error, also for a missing file. -/
def readOrFail (file : IdentityFile) : EnrollAction Bytes := do
  let answer : Except ReadError Bytes ← ask (.read file)
  Action.ofExcept (answer.mapError fun _ => .io)

/-! From `security.rs`. -/

def modeSecret : UInt32 := 0o600

def groupOrOtherWritable : UInt32 := 0o022

def lstat (file : IdentityFile) : EnrollAction Metadata := do
  let answer : Except ReadError Metadata ← ask (.symlinkMetadata file)
  Action.ofExcept (answer.mapError fun _ => .io)

/-- A missing file is no symlink. -/
def symlinkOf (answer : Except ReadError Metadata) : Except Error Bool :=
  match answer with
  | .ok metadata => .ok metadata.isSymlink
  | .error .notFound => .ok false
  | .error .other => .error .io

def isSymlink (file : IdentityFile) : EnrollAction Bool := do
  let answer ← ask (.symlinkMetadata file)
  Action.ofExcept (symlinkOf answer)

def ensureNotSymlink (file : IdentityFile) : EnrollAction Unit := do
  let symlink ← isSymlink file
  Action.ofExcept (rejectIf (symlink = true) .unexpectedSymlink)

def validateOwner (file : IdentityFile) (expectedUid : UInt32) : EnrollAction Unit := do
  let metadata ← lstat file
  Action.ofExcept (rejectIf (metadata.uid ≠ expectedUid) .insecureOwnership)

def ensureNotGroupOrWorldWritable (file : IdentityFile) : EnrollAction Unit := do
  let metadata ← lstat file
  let mode := metadata.mode &&& 0o777
  Action.ofExcept (rejectIf (mode &&& groupOrOtherWritable ≠ 0) .insecurePermissions)

def validateModeAtMost (file : IdentityFile) (allowedMode : UInt32) : EnrollAction Unit := do
  let metadata ← lstat file
  let mode := metadata.mode &&& 0o777
  Action.ofExcept (rejectIf (mode &&& ~~~(allowedMode &&& 0o777) ≠ 0) .insecurePermissions)

variable (p : Platform)

def isEnrolled : EnrollAction Bool := ask (.isFile .record)

def pathExists (file : IdentityFile) : EnrollAction Bool := do
  let answer : Except ReadError Metadata ← ask (.symlinkMetadata file)
  pure answer.isOk

def fromOpensshPrivate (pem : Text) : Except Error MachineKeypair :=
  match p.privateKeyFromOpenssh pem with
  | some (.ed25519 keypair) => .ok keypair
  | _ => .error .keyParse

def publicKeyOpenssh (keypair : MachineKeypair) : Except Error Text :=
  okOr (p.publicKeyToOpenssh keypair) .keySerialize

def validatePrivateKeySecurity : EnrollAction Unit := do
  ensureNotSymlink .privateKey
  validateOwner .privateKey p.effectiveUid
  ensureNotGroupOrWorldWritable .privateKey
  validateModeAtMost .privateKey modeSecret

def readKeypair : EnrollAction MachineKeypair := do
  validatePrivateKeySecurity p
  let bytes ← readOrFail .privateKey
  let pem ← Action.ofExcept (okOr (decodeUtf8 bytes) .io)
  Action.ofExcept (fromOpensshPrivate p pem)

def writeKeypair (keypair : MachineKeypair) : EnrollAction Unit := do
  let pem ← Action.ofExcept (okOr (p.privateKeyToOpenssh keypair) .keySerialize)
  secureWrite .privateKey (encodeUtf8 pem) modeSecret
  let line ← Action.ofExcept (publicKeyOpenssh p keypair)
  secureWrite .publicKey (storedLine line) modePublic

def generateMachineKeypair : EnrollAction MachineKeypair := do
  if ← pathExists .privateKey then throw .keyAlreadyExists
  else if ← pathExists .publicKey then throw .keyAlreadyExists
  else
    let seed : Option (Vector UInt8 32) ← ask .generateKey
    let seed ← Action.ofExcept (okOr seed .keyGeneration)
    let keypair : MachineKeypair := { seed := seed, comment := keyComment }
    writeKeypair p keypair
    pure keypair

def loadOrGenerateKeypair : EnrollAction MachineKeypair := do
  if ← pathExists .privateKey then readKeypair p else generateMachineKeypair p

def loadRecord : EnrollAction MachineRecord := do
  let bytes ← readOrFail .record
  Action.ofExcept (okOr (p.recordFromJson bytes) .machineRecordParse)

def saveRecord (record : MachineRecord) : EnrollAction Unit := do
  let json ← Action.ofExcept (okOr (p.recordToJson record) .machineRecordSerialize)
  secureWrite .record (json ++ encodeUtf8 ['\n']) modePublic

def loadMachineIdentity : EnrollAction MachineIdentity := do
  let keypair ← readKeypair p
  let publicKey ← Action.ofExcept (publicKeyOpenssh p keypair)
  let record ← loadRecord p
  Action.ofExcept (record.intoIdentity publicKey)

def createEnrollmentRequest (token hostname : Text) (keypair : MachineKeypair) :
    Except Error EnrollmentRequest := do
  validateToken token
  validateHostname hostname
  let publicKey ← publicKeyOpenssh p keypair
  validateEd25519PublicKey p.toCrypto publicKey
  pure {
    enrollmentToken := token
    hostname := hostname
    os := p.os
    arch := p.arch
    agentVersion := p.agentVersion
    publicKey := publicKey
  }

def persistMachineIdentity (serverUrl hostname : Text) (keypair : MachineKeypair)
    (response : EnrollmentResponse) : EnrollAction MachineIdentity := do
  Action.ofExcept (validateServerUrl serverUrl)
  Action.ofExcept (validateHostname hostname)
  Action.ofExcept (validateResponse p.toCrypto response)
  let publicKey ← Action.ofExcept (publicKeyOpenssh p keypair)
  let now ← ask .now
  let identity : MachineIdentity := {
    machineId := response.machineId
    hostname := hostname
    publicKey := publicKey
    enrolledAt := now
    serverUrl := serverUrl
    heartbeatInterval := response.heartbeatInterval
    syncInterval := response.syncInterval
  }
  saveRecord p identity.toRecord
  pure identity

def enrollPath : Text := text "/api/v1/machines/enroll"

/-- `HttpEnrollmentClient::enroll`. A response is remembered once it was parsed, before anybody
validates it. -/
def clientEnroll (serverUrl : Text) (request : EnrollmentRequest) :
    EnrollAction EnrollmentResponse := do
  let body ← Action.ofExcept (okOr (p.requestToJson request) .enrollmentTransport)
  let answer : Except Error HttpResponse ← ask (.postJson (joinUrl serverUrl enrollPath) body)
  let response ← Action.ofExcept answer
  Action.ofExcept (rejectIf (isSuccess response.status = false) .enrollmentRejected)
  let parsed ← Action.ofExcept (okOr (p.responseFromJson response.body) .enrollmentRejected)
  let _ ← ask (.setLastResponse parsed)
  pure parsed

def enroll (serverUrl token hostname : Text) : EnrollAction MachineIdentity := do
  if ← isEnrolled then throw .alreadyEnrolled
  else
    Action.ofExcept (validateServerUrl serverUrl)
    Action.ofExcept (validateToken token)
    Action.ofExcept (validateHostname hostname)
    let keypair ← loadOrGenerateKeypair p
    let request ← Action.ofExcept (createEnrollmentRequest p token hostname keypair)
    let response ← clientEnroll p serverUrl request
    persistMachineIdentity p serverUrl hostname keypair response

/-- The fields of the configuration that enrollment reads. -/
structure Config where
  serverUrl : Text
  bundleSigningPublicKey : Option Text

/-- One attempt of `ensure_enrolled`: a record that an earlier attempt wrote is loaded. -/
def attemptEnrollment (config : Config) (token hostname : Text) : EnrollAction MachineIdentity := do
  match ← (enroll p config.serverUrl token hostname).attempt with
  | .ok identity => pure identity
  | .error .alreadyEnrolled => loadMachineIdentity p
  | .error err => throw err

/-- `saturating_add(1)`. -/
def nextAttempt (attempt : UInt32) : UInt32 := if attempt = 0xffffffff then attempt else attempt + 1

/-- The loop of `retry_with_backoff` after `attempt` failures, unrolled `fuel` times. The delay
depends on the attempt and on a random number. -/
def retryWithBackoff {α : Type} (op : EnrollAction α) (attempt : UInt32) (lastErr : Option Error) :
    Nat → EnrollAction α
  | 0 => ExceptT.mk Program.running
  | fuel + 1 => do
    if ← shutdownRequested then throw (lastErr.getD .enrollmentTransport)
    else
      let attempt := nextAttempt attempt
      match ← op.attempt with
      | .ok value => pure value
      | .error err =>
        if ← shutdownRequested then throw err
        else
          let _ ← ask (.sleep attempt)
          retryWithBackoff op attempt (some err) fuel

/-- From `service/runtime_state.rs`. -/
def pinBundleSigningKey (config : Config) (key : Option Text) : EnrollAction Bool := do
  if config.bundleSigningPublicKey.isSome then pure false
  else match key with
    | none => pure false
    | some key =>
      let answer ← ask (.readState .signingKey)
      let existing ← Action.ofExcept (stringOf answer)
      if existing.isSome then pure false
      else
        let answer : Except Error Unit ←
          ask (.writeState .signingKey (storedLine (trimText key)) modePublic)
        Action.ofExcept answer
        pure true

def ensureEnrolled (config : Config) (hostname : Text) (fuel : Nat) :
    EnrollAction MachineIdentity := do
  if ← isEnrolled then loadMachineIdentity p
  else
    let token : Option Text ← ask .enrollmentToken
    let token ← Action.ofExcept (okOr token .invalidToken)
    Action.ofExcept (validateToken token)
    let client : Except Error Unit ← ask .connect
    Action.ofExcept client
    let identity ← retryWithBackoff (attemptEnrollment p config token hostname) 0 none fuel
    match ← ask .lastResponse with
    | some response =>
      let _ ← pinBundleSigningKey config response.bundleSigningKey
      pure identity
    | none => pure identity

/-- The CA-sync service that a boot builds for the identity it found. -/
def syncService (config : Config) (client : Client) (identity : MachineIdentity) :
    CaSyncService where
  client := client
  machineId := identity.machineId
  serverUrl := identity.serverUrl
  pinnedSigningKey := config.bundleSigningPublicKey

end MayflyAgent.Enrollment
