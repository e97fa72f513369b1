import MayflyAgent.Framing
import MayflyAgent.CaSync

/-!
The client of the privileged helper, after `ipc/protocol.rs` and `ipc/client.rs`. Reading the
capability token, the connection with its timeouts, every write, read and allocation is a call.
The serializer of requests and the parser of responses are parameters. The client of the CA sync
writes compact JSON. The operations other than the apply are left out.
-/
namespace MayflyAgent.Helper

open RustText Programs Checks Errors Framing Bundles CaSync

def protocolVersion : UInt32 := 1

def maxBodyBytes : Nat := 1024 * 1024

inductive Operation
  | ping
  | ensureDirectories
  | installSshdDropin
  | applyTrustedCaKeys
  | verifyState
  deriving DecidableEq

structure Request where
  protocolVersion : UInt32
  token : Text
  op : Operation
  content : Option Text
  deriving DecidableEq

def Request.new (token : Text) (op : Operation) : Request where
  protocolVersion := Helper.protocolVersion
  token := token
  op := op
  content := none

def Request.apply (token content : Text) : Request where
  protocolVersion := Helper.protocolVersion
  token := token
  op := .applyTrustedCaKeys
  content := some content

inductive Outcome
  | ok
  | applied
  | rolledBack
  | notModified
  | unhealthy
  deriving DecidableEq

structure Response where
  ok : Bool
  outcome : Outcome
  helperVersion : Option Text
  detail : Option Text
  deriving DecidableEq

/-! Compact JSON. Its string escapes are those of the canonical payload. -/

def Operation.name : Operation → Text
  | ping => text "ping"
  | ensureDirectories => text "ensure_directories"
  | installSshdDropin => text "install_sshd_dropin"
  | applyTrustedCaKeys => text "apply_trusted_ca_keys"
  | verifyState => text "verify_state"

def jsonString (s : Text) : Text := '"' :: (jsonEscape s ++ ['"'])

def requestJson (request : Request) : Text :=
  text "\x7b\"protocol_version\":" ++ decimal request.protocolVersion.toNat ++
    text ",\"token\":" ++ jsonString request.token ++
    text ",\"op\":" ++ jsonString request.op.name ++
    (match request.content with
      | some content => text ",\"content\":" ++ jsonString content
      | none => []) ++
    ['\x7d']

def requestBody (request : Request) : Bytes := encodeUtf8 (requestJson request)

/-- What `serde_json` makes of a request. It does not fail for these types. -/
def compactJson (request : Request) : Option Bytes := some (requestBody request)

/-- The serializer is that of another crate. -/
def encodeRequest (requestToJson : Request → Option Bytes) (request : Request) :
    Except Error Bytes :=
  okOr (requestToJson request) .helperProtocol

/-! Calls. An I/O error is never looked into. -/

inductive HelperOp
  | readToString (path : Text)
  | connect (path : Text)
  | setReadTimeout (seconds : Nat)
  | setWriteTimeout (seconds : Nat)
  | writeAll (bytes : Bytes)
  | flush
  | allocate (count : Nat)
  | readExact (count : Nat)
  deriving DecidableEq

def HelperOp.Answer : HelperOp → Type
  | readToString _ => Option Text
  | connect _ => Option Unit
  | setReadTimeout _ => Option Unit
  | setWriteTimeout _ => Option Unit
  | writeAll _ => Option Unit
  | flush => Option Unit
  | allocate _ => Unit
  | readExact count => Option (Vector UInt8 count)

abbrev helperSignature : Signature := { Op := HelperOp, Answer := HelperOp.Answer }

abbrev HelperAction := Action helperSignature Error

def readToString (path : Text) : HelperAction Text := do
  let answer : Option Text ← Action.perform (S := helperSignature) (.readToString path)
  Action.ofExcept (okOr answer .io)

def connect (path : Text) : HelperAction Unit := do
  let answer : Option Unit ← Action.perform (S := helperSignature) (.connect path)
  Action.ofExcept (okOr answer .helperUnavailable)

def setReadTimeout (seconds : Nat) : HelperAction Unit := do
  let answer : Option Unit ← Action.perform (S := helperSignature) (.setReadTimeout seconds)
  Action.ofExcept (okOr answer .helperUnavailable)

def setWriteTimeout (seconds : Nat) : HelperAction Unit := do
  let answer : Option Unit ← Action.perform (S := helperSignature) (.setWriteTimeout seconds)
  Action.ofExcept (okOr answer .helperUnavailable)

def writeAll (bytes : Bytes) : HelperAction Unit := do
  let answer : Option Unit ← Action.perform (S := helperSignature) (.writeAll bytes)
  Action.ofExcept (okOr answer .helperUnavailable)

def flush : HelperAction Unit := do
  let answer : Option Unit ← Action.perform (S := helperSignature) .flush
  Action.ofExcept (okOr answer .helperUnavailable)

/-- A buffer of zeroes. -/
def allocate (count : Nat) : HelperAction Unit :=
  Action.perform (S := helperSignature) (.allocate count)

def readExact (count : Nat) : HelperAction (Vector UInt8 count) := do
  let answer : Option (Vector UInt8 count) ←
    Action.perform (S := helperSignature) (.readExact count)
  Action.ofExcept (okOr answer .helperUnavailable)

def tryFromU32 (n : Nat) : Option UInt32 := if n < 2 ^ 32 then some (UInt32.ofNat n) else none

def toBeBytes (len : UInt32) : Bytes := toBigEndian 4 len.toNat

def fromBeBytes (bytes : Vector UInt8 4) : UInt32 := UInt32.ofNat (ofBigEndian bytes.toList)

def writeFrame (body : Bytes) : HelperAction Unit :=
  if maxBodyBytes < body.length then throw .helperProtocol
  else do
    let len ← Action.ofExcept (okOr (tryFromU32 body.length) .helperProtocol)
    writeAll (toBeBytes len)
    writeAll body
    flush

def readFrame : HelperAction Bytes := do
  let lenBuf ← readExact 4
  let len := (fromBeBytes lenBuf).toNat
  if maxBodyBytes < len then throw .helperProtocol
  else
    allocate len
    let body ← readExact len
    pure body.toList

def ioTimeout : Nat := 30

structure HelperClient where
  socketPath : Text
  token : Text
  requestToJson : Request → Option Bytes
  responseFromJson : Bytes → Option Response

namespace HelperClient

variable (client : HelperClient)

def decodeResponse (bytes : Bytes) : Except Error Response :=
  okOr (client.responseFromJson bytes) .helperProtocol

/-- Nothing is drained after the response: that reader is limited to no bytes. -/
def call (request : Request) : HelperAction Response := do
  connect client.socketPath
  setReadTimeout ioTimeout
  setWriteTimeout ioTimeout
  let body ← Action.ofExcept (encodeRequest client.requestToJson request)
  writeFrame body
  let responseBody ← readFrame
  Action.ofExcept (client.decodeResponse responseBody)

/-- What `apply_bundle` makes of a response. -/
def bundleOutcome (response : Response) : Except Error BundleApplyOutcome :=
  if response.ok then .ok .applied
  else if response.detail = some (text "unauthenticated") then .error .helperUnauthenticated
  else if response.outcome = .rolledBack then .ok .rolledBack
  else .error .helperOperationFailed

def applyBundle (content : Text) : HelperAction BundleApplyOutcome := do
  let response ← client.call (Request.apply client.token content)
  Action.ofExcept (bundleOutcome response)

end HelperClient

structure HelperBundleApplier where
  socketPath : Text
  tokenPath : Text
  responseFromJson : Bytes → Option Response

namespace HelperBundleApplier

variable (a : HelperBundleApplier)

/-- The client for a token as the file holds it. -/
def clientFor (token : Text) : HelperClient where
  socketPath := a.socketPath
  token := trimText token
  requestToJson := compactJson
  responseFromJson := a.responseFromJson

def fromPaths : HelperAction HelperClient := do
  let token ← readToString a.tokenPath
  pure (a.clientFor token)

def apply (trustedCaKeys : Text) : HelperAction BundleApplyOutcome := do
  let client ← a.fromPaths
  client.applyBundle trustedCaKeys

end HelperBundleApplier

end MayflyAgent.Helper
