import MayflyAgent.RustText
import MayflyAgent.KeyedSort
import MayflyAgent.Checks
import MayflyAgent.Errors

/-!
The CA-bundle data model: canonical encodings, validation and rendering. Every
definition follows the function of the same name. Signatures, digests, OpenSSH
key parsing, base64 and RFC 3339 come from other crates and are fields of
`Crypto`; instants are nanoseconds since the Unix epoch.
-/
namespace MayflyAgent.Bundles

open RustText KeyedSort Checks Errors

abbrev Time := Int

def nanosPerSecond : Int := 1000000000

/-- The key material behind an OpenSSH public-key line. -/
inductive KeyData
  | ed25519 (bytes : Vector UInt8 32)
  | other
  deriving DecidableEq

/-- What the agent uses of ssh-key, ed25519-dalek, sha2, base64 and time. -/
structure Crypto where
  sha256 : Bytes → Vector UInt8 32
  fromOpenssh : Text → Option KeyData
  verifyingKeyFromBytes : Vector UInt8 32 → Bool
  base64Decode : Text → Option Bytes
  verifyStrict : Vector UInt8 32 → Bytes → Vector UInt8 64 → Bool
  parseRfc3339 : Text → Option Time

def fingerprintPrefix : Text := text "sha256:"

def supportedBundleVersion : UInt32 := 1

def signatureAlgorithm : Text := text "ssh-ed25519"

def clockSkewGrace : Int := 60 * nanosPerSecond

def minKeys : Nat := 1

def maxKeys : Nat := 64

def maxKeyIdLen : Nat := 64

structure CaBundleKey where
  keyId : Text
  publicKey : Text
  deriving DecidableEq

/-- The untrusted envelope. A missing key list is read as the empty one. -/
structure CaBundleResponse where
  bundleVersion : Option UInt32
  generation : Option UInt64
  fingerprint : Option Text
  createdAt : Option Text
  expiresAt : Option Text
  keys : List CaBundleKey
  signatureAlgorithm : Option Text
  signature : Option Text
  bundleSigningPublicKey : Option Text
  deriving DecidableEq

structure CaBundle where
  bundleVersion : UInt32
  generation : UInt64
  fingerprint : Text
  createdAt : Time
  expiresAt : Time
  keys : List CaBundleKey
  signingPublicKey : Text
  deriving DecidableEq

def escapeChar (c : Char) : Text :=
  if c = '"' then ['\\', '"']
  else if c = '\\' then ['\\', '\\']
  else if c = '\n' then ['\\', 'n']
  else if c = '\r' then ['\\', 'r']
  else if c = '\t' then ['\\', 't']
  else if c = Char.ofNat 0x08 then ['\\', 'b']
  else if c = Char.ofNat 0x0c then ['\\', 'f']
  else if c.toNat < 0x20 then ['\\', 'u'] ++ lowerHex4 c.toNat
  else [c]

/-- `json_escape_into`, as the text it appends. -/
def jsonEscape (s : Text) : Text := s.flatMap escapeChar

/-- One element of the keys array. -/
def keyObject (key : CaBundleKey) : Text :=
  text "\x7b\"key_id\":\"" ++ jsonEscape key.keyId ++ text "\",\"public_key\":\"" ++
    jsonEscape key.publicKey ++ text "\"\x7d"

/-- `append_keys_array`, as the text it appends. -/
def appendKeysArray (sorted : List CaBundleKey) : Text :=
  ['['] ++
    (sorted.zipIdx.flatMap fun (key, i) => (if i > 0 then [','] else []) ++ keyObject key) ++
    [']']

def sortByKeyId (keys : List CaBundleKey) : List CaBundleKey :=
  sortByKey CaBundleKey.keyId keys

def canonicalJson (generation : UInt64) (keys : List CaBundleKey) : Text :=
  text "\x7b\"generation\":" ++ decimal generation.toNat ++ text ",\"keys\":" ++
    appendKeysArray (sortByKeyId keys) ++ ['}']

def canonicalSigningPayload (bundleVersion : UInt32) (generation : UInt64)
    (fingerprint createdAt expiresAt : Text) (keys : List CaBundleKey) : Text :=
  text "\x7b\"bundle_version\":" ++ decimal bundleVersion.toNat ++
    text ",\"created_at\":\"" ++ jsonEscape createdAt ++
    text "\",\"expires_at\":\"" ++ jsonEscape expiresAt ++
    text "\",\"fingerprint\":\"" ++ jsonEscape fingerprint ++
    text "\",\"generation\":" ++ decimal generation.toNat ++
    text ",\"keys\":" ++ appendKeysArray (sortByKeyId keys) ++ ['}']

def computeFingerprint (ext : Crypto) (generation : UInt64) (keys : List CaBundleKey) : Text :=
  fingerprintPrefix ++
    hexEncode (ext.sha256 (encodeUtf8 (canonicalJson generation keys))).toList

/-- A scan of all bytes that does not stop at the first difference. -/
def fingerprintsEqual (a b : Text) : Bool :=
  let a := encodeUtf8 a
  let b := encodeUtf8 b
  if a.length ≠ b.length then false
  else ((a.zip b).foldl (fun diff (x, y) => diff ||| (x ^^^ y)) 0) == 0

/-- Algorithm and blob of an OpenSSH line, `None` when either is missing. -/
def material (s : Text) : Option (Text × Text) :=
  match splitWhitespace s with
  | algo :: blob :: _ => some (algo, blob)
  | _ => none

def publicKeysEqual (a b : Text) : Bool :=
  match material a, material b with
  | some x, some y => x == y
  | _, _ => false

/-- From `identity/keypair.rs`. -/
def validateEd25519PublicKey (ext : Crypto) (value : Text) : Except Error Unit :=
  if value.any isControl then .error .malformedPublicKey
  else match ext.fromOpenssh value with
    | some (.ed25519 _) => .ok ()
    | _ => .error .malformedPublicKey

def validateKeyId (keyId : Text) : Except CaBundleError Unit := do
  rejectIf (keyId.isEmpty ∨ byteLength keyId > maxKeyIdLen) .invalidKey
  rejectIf (keyId.any fun c => isWhitespace c || isControl c || !isAsciiGraphic c) .invalidKey

def validateKey (ext : Crypto) (key : CaBundleKey) : Except CaBundleError Unit := do
  validateKeyId key.keyId
  (validateEd25519PublicKey ext key.publicKey).mapError fun _ => .invalidKey

/-- Only Ed25519 lines carry the bytes of a verifying key. -/
def ed25519Bytes : KeyData → Option (Vector UInt8 32)
  | .ed25519 bytes => some bytes
  | .other => none

/-- `try_into` for the 64 bytes of a signature. -/
def signatureBytes (b : Bytes) : Option (Vector UInt8 64) :=
  if h : b.toArray.size = 64 then some ⟨b.toArray, h⟩ else none

def verifySignature (ext : Crypto) (payload : Bytes) (signatureB64 signingKeyOpenssh : Text) :
    Except CaBundleError Unit := do
  let key ← okOr (ext.fromOpenssh signingKeyOpenssh) .signatureInvalid
  let ed ← okOr (ed25519Bytes key) .signatureInvalid
  rejectIf (ext.verifyingKeyFromBytes ed = false) .signatureInvalid
  let sigBytes ← okOr (ext.base64Decode (trimText signatureB64)) .signatureInvalid
  let signature ← okOr (signatureBytes sigBytes) .signatureInvalid
  rejectIf (ext.verifyStrict ed payload signature = false) .signatureInvalid

/-- The signing key must match the pin when there is one. -/
def checkPin (expectedSigningKey : Option Text) (signingKey : Text) :
    Except CaBundleError Unit :=
  match expectedSigningKey with
  | some expected => rejectIf (publicKeysEqual expected signingKey = false) .signingKeyMismatch
  | none => .ok ()

def fromResponse (ext : Crypto) (raw : CaBundleResponse) (now : Time)
    (expectedSigningKey : Option Text) : Except CaBundleError CaBundle := do
  let bundleVersion ← okOr raw.bundleVersion .unsupportedVersion
  let generation := raw.generation.getD 0
  let fingerprint := raw.fingerprint.getD []
  let createdAtStr := raw.createdAt.getD []
  let expiresAtStr := raw.expiresAt.getD []
  let algorithm := raw.signatureAlgorithm.getD []
  let signature := raw.signature.getD []
  let signingKey := raw.bundleSigningPublicKey.getD []
  rejectIf (bundleVersion ≠ supportedBundleVersion) .unsupportedVersion
  rejectIf (algorithm ≠ Bundles.signatureAlgorithm) .unsupportedSignatureAlgorithm
  rejectIf (trimText signingKey = [] ∨ validateEd25519PublicKey ext signingKey ≠ .ok ())
    .signatureInvalid
  checkPin expectedSigningKey signingKey
  rejectIf (trimText fingerprint = []) .missingFingerprint
  let payload := canonicalSigningPayload bundleVersion generation fingerprint createdAtStr
    expiresAtStr raw.keys
  verifySignature ext (encodeUtf8 payload) signature signingKey
  rejectIf (generation = 0) .missingGeneration
  rejectIf (raw.keys.length < minKeys) .empty
  rejectIf (raw.keys.length > maxKeys) .tooManyKeys
  checkAll (validateKey ext) raw.keys
  let byId := sortByKeyId raw.keys
  rejectIf (hasEqualNeighbours CaBundleKey.keyId byId = true) .duplicateKeyId
  let byPubkey := sortByKey id (raw.keys.map CaBundleKey.publicKey)
  rejectIf (hasEqualNeighbours id byPubkey = true) .duplicatePublicKey
  let keys := sortByKeyId raw.keys
  let computed := computeFingerprint ext generation keys
  rejectIf (fingerprintsEqual computed fingerprint = false) .fingerprintMismatch
  let createdAt ← okOr (ext.parseRfc3339 createdAtStr) .invalidTimestamp
  let expiresAt ← okOr (ext.parseRfc3339 expiresAtStr) .invalidTimestamp
  rejectIf (expiresAt ≤ createdAt) .invalidTimestamp
  rejectIf (now ≥ expiresAt) .expired
  rejectIf (createdAt - now > clockSkewGrace) .notYetValid
  pure {
    bundleVersion := bundleVersion
    generation := generation
    fingerprint := computed
    createdAt := createdAt
    expiresAt := expiresAt
    keys := keys
    signingPublicKey := signingKey
  }

def renderKeyLine (key : CaBundleKey) : Text :=
  let tokens := splitWhitespace key.publicKey
  let algorithm := tokens[0]?.getD (text "ssh-ed25519")
  let blob := tokens[1]?.getD []
  algorithm ++ [' '] ++ blob ++ text " mayfly:" ++ key.keyId

def renderTrustedUserCaKeys (bundle : CaBundle) : Text :=
  text "# Managed by mayfly-agent. DO NOT EDIT.\n" ++
    text "# bundle_version: " ++ decimal bundle.bundleVersion.toNat ++ ['\n'] ++
    text "# generation: " ++ decimal bundle.generation.toNat ++ ['\n'] ++
    text "# fingerprint: " ++ bundle.fingerprint ++ ['\n'] ++
    bundle.keys.flatMap fun key => renderKeyLine key ++ ['\n']

end MayflyAgent.Bundles
