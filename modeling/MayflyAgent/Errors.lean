/-!
The crate's error type. Where a variant of the source wraps the error of another
crate, only the variant is kept: no function of the agent looks inside.
-/
namespace MayflyAgent.Errors

inductive ServerResponseError
  | emptyMachineId
  | invalidMachineId
  | intervalOutOfRange
  | invalidServerIdentity
  | invalidBundleSigningKey
  deriving DecidableEq

inductive TrustedCaError
  | empty
  | malformed
  | disallowedAlgorithm
  | invalidEncoding
  | illegalCharacter
  deriving DecidableEq

inductive CaBundleError
  | empty
  | tooManyKeys
  | duplicateKeyId
  | duplicatePublicKey
  | invalidKey
  | missingGeneration
  | missingFingerprint
  | fingerprintMismatch
  | unsupportedVersion
  | unsupportedSignatureAlgorithm
  | invalidTimestamp
  | expired
  | notYetValid
  | signatureInvalid
  | signingKeyMismatch
  | generationRegressed
  deriving DecidableEq

inductive Error
  | configRead
  | configParse
  | configInvalid (reason : List Char)
  | io
  | unexpectedSymlink
  | insecureOwnership
  | insecurePermissions
  | invalidPath
  | notRoot
  | invalidTrustedCa (reason : TrustedCaError)
  | alreadyEnrolled
  | keyAlreadyExists
  | keyGeneration
  | keyParse
  | keySerialize
  | invalidHostname
  | invalidToken
  | invalidServerUrl
  | malformedPublicKey
  | invalidServerResponse (reason : ServerResponseError)
  | enrollmentRejected
  | enrollmentTransport
  | requestSigning
  | heartbeatTransport
  | heartbeatRejected
  | invalidHeartbeatResponse
  | caBundleTransport
  | caBundleRejected
  | invalidCaBundle (reason : CaBundleError)
  | caReloadFailed
  | machineRecordParse
  | machineRecordSerialize
  | machineRecordInvalid
  | helperUnavailable
  | helperProtocol
  | helperUnauthenticated
  | helperOperationFailed
  deriving DecidableEq

end MayflyAgent.Errors
