import MayflyAgent.ConfigLoads
import MayflyAgent.HelperCalls
import MayflyAgent.Lifecycles
import MayflyAgent.SshdConfigs

/-!
The whole program, after `main.rs` and `service/validation.rs`: it loads the configuration, checks
its surroundings, and runs the daemon. The environment variables stay what they are, and log lines
are left out. The checks only look around and ask the helper for its version. Of all they find, a
start goes by the configuration and the identity directory alone.
-/
namespace MayflyAgent.Startups

open RustText Programs Budgets Checks Errors StateFiles Helper ConfigSources HelperCalls Daemons
open Configs (configInvalid)
open Framing (frame)

inductive Severity
  | ok
  | warn
  | fail
  deriving DecidableEq

structure Check where
  name : Text
  severity : Severity
  detail : Option Text
  deriving DecidableEq

def Check.ok (name : Text) : Check := ⟨name, .ok, none⟩

def Check.warn (name detail : Text) : Check := ⟨name, .warn, some detail⟩

def Check.fail (name detail : Text) : Check := ⟨name, .fail, some detail⟩

/-- The names of the checks that failed. -/
def failedNames (checks : List Check) : List Text :=
  (checks.filter fun check => check.severity = .fail).map Check.name

/-- `ValidationReport::into_result`. -/
def intoResult (checks : List Check) : Except Error Unit :=
  rejectIf (failedNames checks ≠ []) (configInvalid
    (text "startup validation failed: " ++ List.intercalate (text ", ") (failedNames checks)))

inductive StartupOp
  | readConfig (path : Text)
  | isDir (path : Text)
  | readToString (path : Text)
  | clockNow
  deriving DecidableEq

@[reducible] def StartupOp.Answer : StartupOp → Type
  | readConfig _ => Option Text
  | isDir _ => Bool
  | readToString _ => Except ReadError Text
  | clockNow => Bundles.Time

abbrev startupSignature : Signature := { Op := StartupOp, Answer := StartupOp.Answer }

abbrev checkSignature : Signature := startupSignature.sum helperSignature

abbrev CheckProgram := Program checkSignature

abbrev mainSignature : Signature := checkSignature.sum agentSignature

abbrev MainProgram := Program mainSignature

abbrev MainEvent := Event mainSignature

def look (op : StartupOp) : CheckProgram op.Answer :=
  Program.perform (S := checkSignature) (.inl op)

section Validation

variable (ext : Bundles.Crypto) (responseFromJson : Bytes → Option Response) (config : FullConfig)

def configurationCheck : Check :=
  match config.validate ext with
  | .ok _ => Check.ok (text "configuration")
  | .error _ => Check.fail (text "configuration") (text "configuration is invalid")

def dirCheck (name path : Text) (missing : Severity) (detail : Text) : CheckProgram Check := do
  let present : Bool ← look (.isDir path)
  pure (if present then Check.ok name else ⟨name, missing, some detail⟩)

def readNonempty (path : Text) : CheckProgram (Except Error Bool) := do
  let answer : Except ReadError Text ← look (.readToString path)
  pure (match answer with
    | .ok contents => .ok (!(trimText contents).isEmpty)
    | .error .notFound => .ok false
    | .error .other => .error .io)

def tokenCheck : CheckProgram Check := do
  let nonempty ← readNonempty config.helperTokenPath
  pure (match nonempty with
    | .ok true => Check.ok (text "helper_token")
    | .ok false => Check.warn (text "helper_token") (text "helper token file is empty")
    | .error _ => Check.warn (text "helper_token") (text "helper token file is unreadable"))

def applierOf : HelperBundleApplier where
  socketPath := config.helperSocketPath
  tokenPath := config.helperTokenPath
  responseFromJson := responseFromJson

def helperCheck : CheckProgram Check := do
  let client ← (applierOf responseFromJson config).fromPaths.run.inr
  match client with
  | .error _ => pure (Check.warn (text "helper") (text "helper token unavailable"))
  | .ok client =>
    let version ← (ping client).run.inr
    pure (match version with
      | .ok _ => Check.ok (text "helper")
      | .error _ => Check.warn (text "helper") (text "helper is not reachable"))

/-- From `platform/systemd.rs`. -/
def isSystemd : CheckProgram Bool := look (.isDir (text "/run/systemd/system"))

def systemdCheck : CheckProgram Check := do
  let present ← isSystemd
  pure (if present then Check.ok (text "systemd")
    else Check.warn (text "systemd") (text "host is not systemd-managed"))

def sshCompatCheck : CheckProgram Check := do
  let answer : Except ReadError Text ← look (.readToString (text "/etc/ssh/sshd_config"))
  pure (match answer with
    | .ok contents =>
      if SshdConfigs.includesDropinDir contents SshdConfigs.dropinDir then
        Check.ok (text "ssh_compatibility")
      else Check.warn (text "ssh_compatibility")
        (text "sshd_config does not Include the drop-in directory")
    | .error _ => Check.warn (text "ssh_compatibility") (text "sshd_config is unreadable"))

def validateStartup : CheckProgram (List Check) := do
  let identity ← dirCheck (text "identity") config.identityDir .fail
    (text "identity directory is missing")
  let stateDir ← dirCheck (text "state_dir") config.stateDir .warn
    (text "state directory is missing")
  let token ← tokenCheck config
  let helper ← helperCheck responseFromJson config
  let systemd ← systemdCheck
  let ssh ← sshCompatCheck
  pure [configurationCheck ext config, identity, stateDir, token, helper, systemd, ssh]

end Validation

inductive ExitCode
  | success
  | failure
  deriving DecidableEq

def defaultConfigPath : Text := text "/etc/mayfly-agent/config.toml"

def configPath (getEnv : Text → Option Text) : Text :=
  (getEnv (text "MAYFLY_AGENT_CONFIG")).getD defaultConfigPath

section Main

variable (p : Parsers) (responseFromJson : Bytes → Option Response) (b : Build)

/-- The daemon of a configuration, with its two loops unrolled this often. -/
def daemonRun (config : FullConfig) (enrollFuel pollFuel : Nat) :
    MainProgram (Except Ending Unit) := do
  let now : Bundles.Time ← Program.perform (S := mainSignature) (.inl (.inl .clockNow))
  (Daemons.run b ⟨config.toConfig, now⟩ enrollFuel pollFuel).run.inr

/-- `run` of `main.rs`. -/
def checkedRun (config : FullConfig) (enrollFuel pollFuel : Nat) :
    MainProgram (Except Ending Unit) := do
  let checks ← (validateStartup b.toCrypto responseFromJson config).inl
  match intoResult checks with
  | .error e => pure (.error (.failed e))
  | .ok _ => daemonRun b config enrollFuel pollFuel

/-- A panic unwinds out of `main`. -/
def exitCode : Except Ending Unit → Except Scheduling.Panic ExitCode
  | .ok _ => .ok .success
  | .error (.failed _) => .ok .failure
  | .error (.panicked panic) => .error panic

/-- What `main` does with what `Config::load` gave. -/
def runLoaded (enrollFuel pollFuel : Nat) :
    Except Error FullConfig → MainProgram (Except Scheduling.Panic ExitCode)
  | .error _ => pure (.ok .failure)
  | .ok config => do
    let result ← checkedRun responseFromJson b config enrollFuel pollFuel
    pure (exitCode result)

def main (getEnv : Text → Option Text) (enrollFuel pollFuel : Nat) :
    MainProgram (Except Scheduling.Panic ExitCode) := do
  let raw : Option Text ←
    Program.perform (S := mainSignature) (.inl (.inl (.readConfig (configPath getEnv))))
  runLoaded responseFromJson b enrollFuel pollFuel (load p b.toCrypto raw getEnv)

end Main

end MayflyAgent.Startups
