import MayflyAgent.Programs
import MayflyAgent.Bundles
import MayflyAgent.TrustedCa
import MayflyAgent.StateFiles

/-!
One synchronization pass of the CA-sync service, after `protocol/ca_sync.rs` and
`protocol/signing.rs`. Everything the pass does to the outside world is a call:
file reads and atomic writes, clock readings, nonces, the two HTTP exchanges and
the privileged apply. JSON, signing and formatting are functions of the client.
-/
namespace MayflyAgent.CaSync

open RustText Programs Errors Bundles TrustedCa StateFiles

structure HttpRequest where
  url : Text
  headers : List (Text × Text)
  body : Bytes
  deriving DecidableEq

structure HttpResponse where
  status : UInt16
  body : Bytes
  deriving DecidableEq

inductive BundleApplyOutcome
  | applied
  | rolledBack
  deriving DecidableEq

structure AckReport where
  generation : UInt64
  fingerprint : Text
  status : Text
  reason : Option Text
  deriving DecidableEq

inductive SyncOutcome
  | notModified (generation : UInt64)
  | unchanged (generation : UInt64)
  | updated (generation : UInt64) (fingerprint : Text) (acknowledged : Bool)
  deriving DecidableEq

/-- The machine keypair, the serializers and the formatter, next to the functions
that bundle validation uses. -/
structure Client extends Crypto where
  sign : Bytes → Option (Vector UInt8 64)
  base64Encode : Bytes → Text
  formatRfc3339 : Time → Option Text
  bundleFromJson : Bytes → Option CaBundleResponse
  ackToJson : AckReport → Option Bytes

inductive SyncOp
  | read (file : StateFile)
  | secureWrite (file : StateFile) (contents : Bytes) (mode : UInt32)
  | now
  | randomBytes
  | get (request : HttpRequest)
  | post (request : HttpRequest)
  | apply (contents : Text)
  deriving DecidableEq

def SyncOp.Answer : SyncOp → Type
  | read _ => Except ReadError Bytes
  | secureWrite _ _ _ => Except Error Unit
  | now => Time
  | randomBytes => Vector UInt8 16
  | get _ => Except Error HttpResponse
  | post _ => Except Error HttpResponse
  | apply _ => Except Error BundleApplyOutcome

abbrev syncSignature : Signature := { Op := SyncOp, Answer := SyncOp.Answer }

abbrev SyncAction := Action syncSignature Error

abbrev SyncEvent := Event syncSignature

structure CaSyncService where
  client : Client
  machineId : Text
  serverUrl : Text
  pinnedSigningKey : Option Text

def readFile (file : StateFile) : SyncAction (Except ReadError Bytes) :=
  Action.perform (S := syncSignature) (.read file)

def secureWrite (file : StateFile) (contents : Bytes) (mode : UInt32) : SyncAction Unit := do
  let answer : Except Error Unit ←
    Action.perform (S := syncSignature) (.secureWrite file contents mode)
  Action.ofExcept answer

def clockNow : SyncAction Time := Action.perform (S := syncSignature) .now

def fillBytes : SyncAction (Vector UInt8 16) := Action.perform (S := syncSignature) .randomBytes

def transportGet (request : HttpRequest) : SyncAction HttpResponse := do
  let answer : Except Error HttpResponse ← Action.perform (S := syncSignature) (.get request)
  Action.ofExcept answer

def transportPost (request : HttpRequest) : SyncAction HttpResponse := do
  let answer : Except Error HttpResponse ← Action.perform (S := syncSignature) (.post request)
  Action.ofExcept answer

def applierApply (contents : Text) : SyncAction BundleApplyOutcome := do
  let answer : Except Error BundleApplyOutcome ←
    Action.perform (S := syncSignature) (.apply contents)
  Action.ofExcept answer

def signingDomain : Text := text "mayfly-agent-auth-v1"

structure SignedHeaders where
  machineId : Text
  timestamp : Int
  nonce : Text
  signature : Text

/-- `to_string` of a signed integer. -/
def decimalInt (n : Int) : Text := if n < 0 then '-' :: decimal n.natAbs else decimal n.natAbs

def bodySha256Hex (client : Client) (body : Bytes) : Text := hexEncode (client.sha256 body).toList

def canonicalString (machineId : Text) (timestamp : Int) (nonce method path bodyHashHex : Text) :
    Text :=
  signingDomain ++ ['\n'] ++ machineId ++ ['\n'] ++ decimalInt timestamp ++ ['\n'] ++ nonce ++
    ['\n'] ++ method ++ ['\n'] ++ path ++ ['\n'] ++ bodyHashHex

def signRequest (client : Client) (machineId : Text) (timestamp : Int) (nonce method path : Text)
    (body : Bytes) : Except Error SignedHeaders :=
  let bodyHash := bodySha256Hex client body
  let canonical := canonicalString machineId timestamp nonce method path bodyHash
  match client.sign (encodeUtf8 canonical) with
  | none => .error .requestSigning
  | some signature => .ok {
      machineId := machineId
      timestamp := timestamp
      nonce := nonce
      signature := client.base64Encode signature.toList
    }

def generateNonce : SyncAction Text := do
  let bytes ← fillBytes
  pure (hexEncode bytes.toList)

def unixTimestamp (t : Time) : Int := t / nanosPerSecond

def signingHeaders (signed : SignedHeaders) : List (Text × Text) :=
  [(text "X-Mayfly-Machine-Id", signed.machineId),
    (text "X-Mayfly-Timestamp", decimalInt signed.timestamp),
    (text "X-Mayfly-Nonce", signed.nonce),
    (text "X-Mayfly-Signature", signed.signature)]

def joinUrl (base path : Text) : Text := Words.trimEnd (fun c => c == '/') base ++ path

def caBundlePath : Text := text "/api/v1/agent/ca-bundle"

def caBundleAckPath : Text := text "/api/v1/agent/ca-bundle/ack"

def headerIfNoneMatch : Text := text "If-None-Match"

def statusNotModified : UInt16 := 304

def modePublic : UInt32 := 0o644

/-- `(200..300).contains(&status)`. -/
def isSuccess (status : UInt16) : Bool := 200 ≤ status && status < 300

/-- An entity tag is a fingerprint in quotes. -/
def quoted (s : Text) : Text := '"' :: (s ++ ['"'])

def readOptionalString (file : StateFile) : SyncAction (Option Text) := do
  let answer ← readFile file
  Action.ofExcept (stringOf answer)

def readOptional (file : StateFile) : SyncAction (Option Bytes) := do
  let answer ← readFile file
  Action.ofExcept (optionalOf answer)

def readGeneration : SyncAction (Option UInt64) := do
  let answer ← readFile .generation
  Action.ofExcept (generationOf answer)

def loadState : SyncAction PersistedState := do
  let generation ← readGeneration
  let fingerprint ← readOptionalString .fingerprint
  let signingKey ← readOptionalString .signingKey
  pure { generation := generation, fingerprint := fingerprint, signingKey := signingKey }

def writeGeneration (generation : UInt64) : SyncAction Unit :=
  secureWrite .generation (storedLine (decimal generation.toNat)) modePublic

def writeFingerprint (fingerprint : Text) : SyncAction Unit :=
  secureWrite .fingerprint (storedLine fingerprint) modePublic

def fromJson (client : Client) (body : Bytes) : Except Error CaBundleResponse :=
  match client.bundleFromJson body with
  | none => .error (.invalidCaBundle .invalidKey)
  | some raw => .ok raw

namespace CaSyncService

variable (s : CaSyncService)

def writeTimestamp (file : StateFile) : SyncAction Unit := do
  let now ← clockNow
  let stamp ← Action.ofExcept (Checks.okOr (s.client.formatRfc3339 now) .machineRecordInvalid)
  secureWrite file (storedLine stamp) modePublic

def sign (method path : Text) (body : Bytes) : SyncAction SignedHeaders := do
  let now ← clockNow
  let nonce ← generateNonce
  Action.ofExcept (signRequest s.client s.machineId (unixTimestamp now) nonce method path body)

/-- The request of `fetch_bundle`, with the cached fingerprint as an entity tag. -/
def bundleRequest (signed : SignedHeaders) (currentFingerprint : Option Text) : HttpRequest where
  url := joinUrl s.serverUrl caBundlePath
  headers := signingHeaders signed ++
    match currentFingerprint with
    | some fingerprint => [(headerIfNoneMatch, quoted fingerprint)]
    | none => []
  body := []

def fetchBundle (currentFingerprint : Option Text) : SyncAction HttpResponse := do
  let signed ← s.sign (text "GET") caBundlePath []
  transportGet (s.bundleRequest signed currentFingerprint)

def tryAcknowledge (report : AckReport) : SyncAction Unit := do
  let body ← Action.ofExcept (Checks.okOr (s.client.ackToJson report) .requestSigning)
  let signed ← s.sign (text "POST") caBundleAckPath body
  let response ← transportPost {
    url := joinUrl s.serverUrl caBundleAckPath
    headers := signingHeaders signed ++ [(text "content-type", text "application/json")]
    body := body
  }
  Action.ofExcept (Checks.rejectIf (isSuccess response.status = false) .caBundleRejected)

def acknowledge (report : AckReport) : SyncAction Bool := do
  let answer ← (s.tryAcknowledge report).attempt
  pure answer.isOk

def expectedSigningKey (persisted : PersistedState) : Option Text :=
  s.pinnedSigningKey.or persisted.signingKey

def persistPinIfNeeded (bundle : CaBundle) : SyncAction Unit := do
  if s.pinnedSigningKey.isSome then pure ()
  else
    let existing ← readOptional .signingKey
    if existing.isSome then pure ()
    else secureWrite .signingKey (storedLine bundle.signingPublicKey) modePublic

def persistAfterApply (bundle : CaBundle) : SyncAction Unit := do
  writeGeneration bundle.generation
  writeFingerprint bundle.fingerprint
  s.persistPinIfNeeded bundle
  s.writeTimestamp .lastSuccess

/-- The rendered file is parsed again before the helper gets it. -/
def apply (bundle : CaBundle) : SyncAction BundleApplyOutcome := do
  let contents := renderTrustedUserCaKeys bundle
  let _ ← Action.ofExcept (TrustedCaKeys.parse contents)
  applierApply contents

def appliedReport (bundle : CaBundle) : AckReport where
  generation := bundle.generation
  fingerprint := bundle.fingerprint
  status := text "applied"
  reason := none

def rollbackReport (bundle : CaBundle) : AckReport where
  generation := bundle.generation
  fingerprint := bundle.fingerprint
  status := text "rollback"
  reason := some (text "sshd apply failed; previous bundle restored")

/-- The generation of a bundle lies below the persisted one. -/
def regressed (persisted : PersistedState) (bundle : CaBundle) : Bool :=
  match persisted.generation with
  | some prev => bundle.generation < prev
  | none => false

def synchronize : SyncAction SyncOutcome := do
  let persisted ← loadState
  let response ← s.fetchBundle persisted.fingerprint
  s.writeTimestamp .lastSync
  if response.status = statusNotModified then
    s.writeTimestamp .lastSuccess
    pure (.notModified (persisted.generation.getD 0))
  else if isSuccess response.status = false then
    throw .caBundleRejected
  else
    let raw ← Action.ofExcept (fromJson s.client response.body)
    let expected := s.expectedSigningKey persisted
    let now ← clockNow
    let bundle ← Action.ofExcept
      ((fromResponse s.client.toCrypto raw now expected).mapError .invalidCaBundle)
    if regressed persisted bundle then
      throw (.invalidCaBundle .generationRegressed)
    else if persisted.generation = some bundle.generation ∧
        persisted.fingerprint = some bundle.fingerprint then
      s.persistPinIfNeeded bundle
      s.writeTimestamp .lastSuccess
      pure (.unchanged bundle.generation)
    else
      match ← apply bundle with
      | .applied =>
        s.persistAfterApply bundle
        let acknowledged ← s.acknowledge (appliedReport bundle)
        pure (.updated bundle.generation bundle.fingerprint acknowledged)
      | .rolledBack =>
        let _ ← s.acknowledge (rollbackReport bundle)
        throw .caReloadFailed

end CaSyncService

end MayflyAgent.CaSync
