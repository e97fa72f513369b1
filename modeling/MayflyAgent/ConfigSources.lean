import MayflyAgent.Configs
import MayflyAgent.Overrides
import MayflyAgent.Scheduling

/-!
The sources of the configuration, after `config.rs`: a TOML file, and variables of the environment
that override its fields. The parser of the file, with its defaults, and the one of floating point
numbers are parameters; a number that is not finite has no value.
-/
namespace MayflyAgent.ConfigSources

open RustText Checks Errors Overrides
open Configs (Config configInvalid)
open Scheduling (ofSecs)

inductive LogLevel
  | trace
  | debug
  | info
  | warn
  | error
  deriving DecidableEq

inductive LogFormat
  | json
  | pretty
  deriving DecidableEq

/-- `str::to_ascii_lowercase`. -/
def toAsciiLowercase (s : Text) : Text := s.map Char.toLower

def LogLevel.asFilterStr : LogLevel → Text
  | trace => text "trace"
  | debug => text "debug"
  | info => text "info"
  | warn => text "warn"
  | error => text "error"

def LogLevel.parse (s : Text) : Option LogLevel :=
  let s := toAsciiLowercase (trimText s)
  if s = text "trace" then some .trace
  else if s = text "debug" then some .debug
  else if s = text "info" then some .info
  else if s = text "warn" then some .warn
  else if s = text "error" then some .error
  else none

def LogFormat.parse (s : Text) : Option LogFormat :=
  let s := toAsciiLowercase (trimText s)
  if s = text "json" then some .json
  else if s = text "pretty" then some .pretty
  else none

/-- The configuration with the fields that its validation does not look at. -/
structure FullConfig extends Config where
  logLevel : LogLevel
  logFormat : LogFormat

structure Parsers where
  fromToml : Text → Option FullConfig
  parseF64 : Text → Option (Option ℚ)

inductive Field
  | serverUrl
  | machineId
  | heartbeatInterval
  | syncInterval
  | trustedCaPath
  | sshdConfigPath
  | stateDir
  | identityDir
  | helperSocketPath
  | helperTokenPath
  | bundleSigningPublicKey
  | pollJitterRatio
  | logLevel
  | logFormat
  | allowInsecureTls
  | tlsCaPath
  deriving DecidableEq

def envPrefix : Text := text "MAYFLY_AGENT_"

/-- The full name of the variable behind a suffix. -/
def key (suffix : Text) : Text := envPrefix ++ suffix

namespace Field

def name : Field → Text
  | serverUrl => text "server_url"
  | machineId => text "machine_id"
  | heartbeatInterval => text "heartbeat_interval"
  | syncInterval => text "sync_interval"
  | trustedCaPath => text "trusted_ca_path"
  | sshdConfigPath => text "sshd_config_path"
  | stateDir => text "state_dir"
  | identityDir => text "identity_dir"
  | helperSocketPath => text "helper_socket_path"
  | helperTokenPath => text "helper_token_path"
  | bundleSigningPublicKey => text "bundle_signing_public_key"
  | pollJitterRatio => text "poll_jitter_ratio"
  | logLevel => text "log_level"
  | logFormat => text "log_format"
  | allowInsecureTls => text "allow_insecure_tls"
  | tlsCaPath => text "tls_ca_path"

def suffix : Field → Text
  | serverUrl => text "SERVER_URL"
  | machineId => text "MACHINE_ID"
  | heartbeatInterval => text "HEARTBEAT_INTERVAL"
  | syncInterval => text "SYNC_INTERVAL"
  | trustedCaPath => text "TRUSTED_CA_PATH"
  | sshdConfigPath => text "SSHD_CONFIG_PATH"
  | stateDir => text "STATE_DIR"
  | identityDir => text "IDENTITY_DIR"
  | helperSocketPath => text "HELPER_SOCKET_PATH"
  | helperTokenPath => text "HELPER_TOKEN_PATH"
  | bundleSigningPublicKey => text "BUNDLE_SIGNING_PUBLIC_KEY"
  | pollJitterRatio => text "POLL_JITTER_RATIO"
  | logLevel => text "LOG_LEVEL"
  | logFormat => text "LOG_FORMAT"
  | allowInsecureTls => text "ALLOW_INSECURE_TLS"
  | tlsCaPath => text "TLS_CA_PATH"

@[reducible] def Value : Field → Type
  | heartbeatInterval | syncInterval => Nat
  | bundleSigningPublicKey | tlsCaPath => Option Text
  | pollJitterRatio => Option ℚ
  | logLevel => LogLevel
  | logFormat => LogFormat
  | allowInsecureTls => Bool
  | _ => Text

def view : (f : Field) → FullConfig → f.Value
  | serverUrl, config => config.serverUrl
  | machineId, config => config.machineId
  | heartbeatInterval, config => config.heartbeatInterval
  | syncInterval, config => config.syncInterval
  | trustedCaPath, config => config.trustedCaPath
  | sshdConfigPath, config => config.sshdConfigPath
  | stateDir, config => config.stateDir
  | identityDir, config => config.identityDir
  | helperSocketPath, config => config.helperSocketPath
  | helperTokenPath, config => config.helperTokenPath
  | bundleSigningPublicKey, config => config.bundleSigningPublicKey
  | pollJitterRatio, config => config.pollJitterRatio
  | logLevel, config => config.logLevel
  | logFormat, config => config.logFormat
  | allowInsecureTls, config => config.allowInsecureTls
  | tlsCaPath, config => config.tlsCaPath

def put : (f : Field) → f.Value → FullConfig → FullConfig
  | serverUrl, value, config => { config with serverUrl := value }
  | machineId, value, config => { config with machineId := value }
  | heartbeatInterval, value, config => { config with heartbeatInterval := value }
  | syncInterval, value, config => { config with syncInterval := value }
  | trustedCaPath, value, config => { config with trustedCaPath := value }
  | sshdConfigPath, value, config => { config with sshdConfigPath := value }
  | stateDir, value, config => { config with stateDir := value }
  | identityDir, value, config => { config with identityDir := value }
  | helperSocketPath, value, config => { config with helperSocketPath := value }
  | helperTokenPath, value, config => { config with helperTokenPath := value }
  | bundleSigningPublicKey, value, config => { config with bundleSigningPublicKey := value }
  | pollJitterRatio, value, config => { config with pollJitterRatio := value }
  | logLevel, value, config => { config with logLevel := value }
  | logFormat, value, config => { config with logFormat := value }
  | allowInsecureTls, value, config => { config with allowInsecureTls := value }
  | tlsCaPath, value, config => { config with tlsCaPath := value }

end Field

def parseU64 (field value : Text) : Except Error UInt64 :=
  okOr (RustText.parseU64 (trimText value))
    (configInvalid (field ++ text " must be a non-negative integer"))

def parseBool (field value : Text) : Except Error Bool :=
  let value := toAsciiLowercase (trimText value)
  if value = text "true" ∨ value = text "1" ∨ value = text "yes" ∨ value = text "on" then .ok true
  else if value = text "false" ∨ value = text "0" ∨ value = text "no" ∨ value = text "off" then
    .ok false
  else .error (configInvalid (field ++ text " must be a boolean"))

def parseF64 (p : Parsers) (field value : Text) : Except Error (Option ℚ) :=
  okOr (p.parseF64 (trimText value)) (configInvalid (field ++ text " must be a number"))

/-- An empty variable clears the field. -/
def clearedIfEmpty (value : Text) : Option Text :=
  if trimText value = [] then none else some (trimText value)

/-- What a variable says of its field. -/
def Field.parse (p : Parsers) : (f : Field) → Text → Except Error f.Value
  | heartbeatInterval, value => do
    let secs ← parseU64 (text "heartbeat_interval") value
    pure (ofSecs secs.toNat)
  | syncInterval, value => do
    let secs ← parseU64 (text "sync_interval") value
    pure (ofSecs secs.toNat)
  | bundleSigningPublicKey, value => .ok (clearedIfEmpty value)
  | pollJitterRatio, value => parseF64 p (text "poll_jitter_ratio") value
  | logLevel, value =>
    okOr (LogLevel.parse value) (configInvalid (text "log_level is not a valid level"))
  | logFormat, value =>
    okOr (LogFormat.parse value) (configInvalid (text "log_format must be 'json' or 'pretty'"))
  | allowInsecureTls, value => parseBool (text "allow_insecure_tls") value
  | tlsCaPath, value => .ok (clearedIfEmpty value)
  | serverUrl, value => .ok value
  | machineId, value => .ok value
  | trustedCaPath, value => .ok value
  | sshdConfigPath, value => .ok value
  | stateDir, value => .ok value
  | identityDir, value => .ok value
  | helperSocketPath, value => .ok value
  | helperTokenPath, value => .ok value

theorem view_ext {c c' : FullConfig} (h : ∀ f : Field, f.view c = f.view c') : c = c' := by
  obtain ⟨⟨⟩, _, _⟩ := c
  obtain ⟨⟨⟩, _, _⟩ := c'
  simp only [FullConfig.mk.injEq, Config.mk.injEq]
  exact ⟨⟨h .serverUrl, h .machineId, h .heartbeatInterval, h .syncInterval, h .trustedCaPath,
    h .sshdConfigPath, h .stateDir, h .identityDir, h .helperSocketPath, h .helperTokenPath,
    h .bundleSigningPublicKey, h .pollJitterRatio, h .allowInsecureTls, h .tlsCaPath⟩,
    h .logLevel, h .logFormat⟩

/-- The configuration as a record of its fields. -/
def record (p : Parsers) : Record Field Text FullConfig Error where
  Value := Field.Value
  view := Field.view
  put := Field.put
  parse := Field.parse p
  view_put f _ _ := by cases f <;> rfl
  view_put_other := by
    intro f g value config hne
    cases f <;> cases g <;> first | rfl | exact absurd rfl hne
  ext := view_ext

/-- In the order in which their variables are looked up. -/
def fields : List Field :=
  [.serverUrl, .machineId, .heartbeatInterval, .syncInterval, .trustedCaPath, .sshdConfigPath,
    .stateDir, .identityDir, .helperSocketPath, .helperTokenPath, .bundleSigningPublicKey,
    .pollJitterRatio, .logLevel, .logFormat, .allowInsecureTls, .tlsCaPath]

section Loading

variable (p : Parsers) (ext : Bundles.Crypto)

def applyEnvOverrides (getEnv : Text → Option Text) (config : FullConfig) :
    Except Error FullConfig :=
  (record p).overrideAll (fun field => getEnv (key field.suffix)) fields config

def fromTomlWithEnv (toml : Text) (getEnv : Text → Option Text) : Except Error FullConfig := do
  let config ← okOr (p.fromToml toml) .configParse
  let config ← applyEnvOverrides p getEnv config
  config.validate ext
  pure config

/-- `Config::load`, by what reading the file gave. -/
def load (raw : Option Text) (getEnv : Text → Option Text) : Except Error FullConfig := do
  let raw ← okOr raw .configRead
  fromTomlWithEnv p ext raw getEnv

end Loading

end MayflyAgent.ConfigSources
