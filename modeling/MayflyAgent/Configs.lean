import MayflyAgent.Enrollment
import Mathlib.Data.Rat.Defs
import Mathlib.Algebra.Order.Field.Rat

/-!
The validation of the configuration, after `config.rs`. A path is its text, a duration a number of
nanoseconds, and the jitter ratio is absent where it is not finite. Fields that the validation does
not look at are left out.
-/
namespace MayflyAgent.Configs

open RustText Checks Errors Bundles
open Enrollment (stripPrefix isMachineIdChar)

structure Config where
  serverUrl : Text
  machineId : Text
  heartbeatInterval : Nat
  syncInterval : Nat
  trustedCaPath : Text
  sshdConfigPath : Text
  stateDir : Text
  identityDir : Text
  helperSocketPath : Text
  helperTokenPath : Text
  bundleSigningPublicKey : Option Text
  pollJitterRatio : Option ℚ
  allowInsecureTls : Bool
  tlsCaPath : Option Text

/-- `Error::config_invalid`. -/
def configInvalid (reason : Text) : Error := .configInvalid reason

def minIntervalSecs : Nat := 1

def maxIntervalSecs : Nat := 86400

def maxMachineIdLen : Nat := 128

def validateMachineId (machineId : Text) : Except Error Unit := do
  rejectIf (machineId = []) (configInvalid (text "machine_id must not be empty"))
  rejectIf (byteLength machineId > maxMachineIdLen) (configInvalid (text "machine_id is too long"))
  rejectIf (machineId.all isMachineIdChar = false) (configInvalid
    (text "machine_id may only contain ASCII letters, digits, '-', '_' and '.'"))

def validateInterval (field : Text) (value : Nat) : Except Error Unit := do
  let secs := value / 1000000000
  rejectIf (value % 1000000000 ≠ 0 ∨ secs < minIntervalSecs) (configInvalid
    (field ++ text " must be at least " ++ decimal minIntervalSecs ++ text " second(s)"))
  rejectIf (secs > maxIntervalSecs) (configInvalid
    (field ++ text " must be at most " ++ decimal maxIntervalSecs ++ text " seconds"))

/-- The components of a path lie between slashes. -/
def validateManagedPath (field path : Text) : Except Error Unit := do
  rejectIf (path = []) (configInvalid (field ++ text " must not be empty"))
  rejectIf (path.head? ≠ some '/') (configInvalid (field ++ text " must be an absolute path"))
  rejectIf ((path.splitOn '/').any (fun component => component == ['.', '.']) = true)
    (configInvalid (field ++ text " must not contain '..' components"))

def validateJitterRatio (ratio : Option ℚ) : Except Error Unit :=
  match ratio with
  | some ratio => rejectIf (¬ (0 ≤ ratio ∧ ratio ≤ 1))
      (configInvalid (text "poll_jitter_ratio must be between 0.0 and 1.0"))
  | none => .error (configInvalid (text "poll_jitter_ratio must be between 0.0 and 1.0"))

def validateOptionalSigningKey (ext : Crypto) : Option Text → Except Error Unit
  | none => .ok ()
  | some key => do
    rejectIf (trimText key = [])
      (configInvalid (text "bundle_signing_public_key must not be empty when set"))
    (validateEd25519PublicKey ext key).mapError fun _ =>
      configInvalid (text "bundle_signing_public_key is not a valid Ed25519 key")

namespace Config

variable (config : Config)

def validateServerUrl : Except Error Unit := do
  let url := config.serverUrl
  rejectIf (trimText url = []) (configInvalid (text "server_url must not be empty"))
  rejectIf (trimText url ≠ url)
    (configInvalid (text "server_url must not have leading/trailing whitespace"))
  match stripPrefix (text "https://") url with
  | some host => rejectIf (host = []) (configInvalid (text "server_url must include a host"))
  | none =>
    match stripPrefix (text "http://") url with
    | some host => do
      rejectIf (config.allowInsecureTls = false)
        (configInvalid (text "server_url must use https unless allow_insecure_tls is set"))
      rejectIf (host = []) (configInvalid (text "server_url must include a host"))
    | none => .error (configInvalid (text "server_url must use http or https"))

def validate (ext : Crypto) : Except Error Unit := do
  config.validateServerUrl
  validateMachineId config.machineId
  validateInterval (text "heartbeat_interval") config.heartbeatInterval
  validateInterval (text "sync_interval") config.syncInterval
  validateManagedPath (text "trusted_ca_path") config.trustedCaPath
  validateManagedPath (text "sshd_config_path") config.sshdConfigPath
  validateManagedPath (text "state_dir") config.stateDir
  validateManagedPath (text "identity_dir") config.identityDir
  validateManagedPath (text "helper_socket_path") config.helperSocketPath
  validateManagedPath (text "helper_token_path") config.helperTokenPath
  validateJitterRatio config.pollJitterRatio
  validateOptionalSigningKey ext config.bundleSigningPublicKey
  match config.tlsCaPath with
  | some path => validateManagedPath (text "tls_ca_path") path
  | none => .ok ()

/-- What enrollment reads of the configuration. -/
def forEnrollment : Enrollment.Config where
  serverUrl := config.serverUrl
  bundleSigningPublicKey := config.bundleSigningPublicKey

end Config

theorem stripPrefix_eq_some {lead s rest : Text} :
    stripPrefix lead s = some rest ↔ s = lead ++ rest := by
  unfold stripPrefix
  split
  · rename_i h
    obtain ⟨tail, rfl⟩ := List.isPrefixOf_iff_prefix.mp h
    simp
  · rename_i h
    refine ⟨nofun, ?_⟩
    rintro rfl
    exact absurd (List.isPrefixOf_iff_prefix.mpr (List.prefix_append lead rest)) h

theorem stripPrefix_eq_none {lead s : Text} :
    stripPrefix lead s = none ↔ ∀ rest, s ≠ lead ++ rest := by
  rw [Option.eq_none_iff_forall_ne_some]
  exact forall_congr' fun rest => not_congr stripPrefix_eq_some

section Accepted

variable {ext : Crypto} {config : Config}

theorem validateServerUrl_of_validate (h : config.validate ext = .ok ()) :
    config.validateServerUrl = .ok () := (check_bind_eq_ok.mp h).1

/-- An accepted URL has one of two schemes and something behind it. -/
theorem accepted_url (h : config.validateServerUrl = .ok ()) :
    trimText config.serverUrl = config.serverUrl ∧ ∃ host, host ≠ [] ∧
      (config.serverUrl = text "https://" ++ host ∨
        config.serverUrl = text "http://" ++ host ∧ config.allowInsecureTls = true) := by
  obtain ⟨_, h⟩ := check_bind_eq_ok.mp h
  obtain ⟨htrim, h⟩ := check_bind_eq_ok.mp h
  refine ⟨not_not.mp (rejectIf_eq_ok.mp htrim), ?_⟩
  split at h
  · rename_i host hhttps
    exact ⟨host, rejectIf_eq_ok.mp h, Or.inl (stripPrefix_eq_some.mp hhttps)⟩
  split at h
  · rename_i host hhttp
    obtain ⟨hallow, hhost⟩ := check_bind_eq_ok.mp h
    exact ⟨host, rejectIf_eq_ok.mp hhost, Or.inr ⟨stripPrefix_eq_some.mp hhttp,
      Bool.not_eq_false _ ▸ rejectIf_eq_ok.mp hallow⟩⟩
  · cases h

end Accepted

end MayflyAgent.Configs
