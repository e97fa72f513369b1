import MayflyAgent.Configs
import MayflyAgent.Handlers
import MayflyAgent.Scheduling

/-!
The whole of `Daemon::run`, after `service/daemon.rs`, `service/runtime_state.rs` and
`service/shutdown.rs`. It makes the calls of the CA-sync service and of the heartbeats, those of
enrollment, and some of its own. The poll loop is the one of the scheduler: its calls are answered
by the daemon, which carries the runtime status from one to the next. Log lines are left out.
-/
namespace MayflyAgent.Daemons

open RustText Programs Checks Errors StateFiles CaSync Helper Heartbeats Scheduling
open Enrollment (Platform MachineKeypair MachineIdentity Metadata EnrollAction enrollSignature
  symlinkOf readKeypair ensureEnrolled syncService)

inductive Signal
  | sigterm
  | sigint
  deriving DecidableEq

inductive HostOp
  | createStateDir
  | stateDirMetadata
  | setStateDirMode (mode : UInt32)
  | registerSignal (signal : Signal)
  | hostFacts
  | newTransport
  | nextDelay (action : PollAction) (interval : JitteredInterval)
  | threadSleep (duration : Nat)
  deriving DecidableEq

@[reducible] def HostOp.Answer : HostOp → Type
  | createStateDir => Option Unit
  | stateDirMetadata => Except ReadError Metadata
  | setStateDirMode _ => Option Unit
  | registerSignal _ => Option Unit
  | hostFacts => HostFacts
  | newTransport => Except Error Unit
  | nextDelay _ _ => Nat
  | threadSleep _ => Unit

abbrev hostSignature : Signature := { Op := HostOp, Answer := HostOp.Answer }

abbrev agentSignature : Signature := daemonSignature.sum (enrollSignature.sum hostSignature)

abbrev AgentProgram := Program agentSignature

/-- The process ends with an error or with a panic. -/
inductive Ending
  | failed (e : Error)
  | panicked (p : Panic)
  deriving DecidableEq

abbrev AgentAction := Action agentSignature Ending

abbrev AgentEvent := Event agentSignature

def daemonAction {α : Type} (x : DaemonAction α) : AgentAction α :=
  ExceptT.mk (x.run.inl >>= fun r => Program.done (r.mapError Ending.failed))

def enrollAction {α : Type} (x : EnrollAction α) : AgentAction α :=
  ExceptT.mk (x.run.inl.inr >>= fun r => Program.done (r.mapError Ending.failed))

def askHost (op : HostOp) : AgentAction op.Answer :=
  Action.perform (S := agentSignature) (.inr (.inr op))

/-- The steps of a start that are only checked. -/
def askChecked {α : Type} (op : HostOp) (check : op.Answer → Except Error α) : AgentAction α := do
  let answer ← askHost op
  Action.ofExcept ((check answer).mapError .failed)

def modeDir : UInt32 := 0o700

/-- From `service/runtime_state.rs`. -/
def ensureStateDir : AgentAction Unit := do
  askChecked .createStateDir fun answer => okOr answer .io
  askChecked .stateDirMetadata fun answer => do
    let symlink ← symlinkOf answer
    rejectIf (symlink = true) .unexpectedSymlink
  askChecked (.setStateDirMode modeDir) fun answer => okOr answer .io

def installSignalHandlers : AgentAction Unit := do
  askChecked (.registerSignal .sigterm) fun answer => okOr answer .io
  askChecked (.registerSignal .sigint) fun answer => okOr answer .io

def isRequested : AgentAction Bool := enrollAction Enrollment.shutdownRequested

/-- What the daemon does for the poll loop. The result of an action is recorded in the status, and
the loop only logs it. The poll loop makes none of the other calls. -/
def polling (d : Heartbeats.Daemon) : Handler (loopSignature Unit) agentSignature RuntimeStatus :=
  fun status op =>
    match op with
    | .now => Program.call (.inl (.inl .now)) fun now => Program.done (now, status)
    | .nextDelay action interval => Program.call (.inr (.inr (.nextDelay action interval)))
        fun delay => Program.done (delay, status)
    | .act action => (d.act status action).run.inl >>= fun result =>
        match result with
        | .ok next => Program.done (.ok (), next)
        | .error e => Program.done (.error e, status)
    | .isRequested => Program.call (.inr (.inl .shutdownRequested))
        fun requested => Program.done (requested, status)
    | .threadSleep chunk => Program.call (.inr (.inr (.threadSleep chunk)))
        fun _ => Program.done ((), status)
    | _ => Program.running

/-- A part of the poll loop, and the status behind it. -/
def loopAction {α : Type} (d : Heartbeats.Daemon) (status : RuntimeStatus)
    (x : LoopAction Unit α) : AgentAction (α × RuntimeStatus) :=
  ExceptT.mk (handle (polling d) x.run status >>= fun r =>
    match r with
    | (.ok a, next) => Program.done (.ok (a, next))
    | (.error panic, _) => Program.done (.error (.panicked panic)))

/-- The codecs of the build. A request is signed with the keypair of the machine. -/
structure Build extends Platform where
  sign : MachineKeypair → Bytes → Option (Vector UInt8 64)
  base64Encode : Bytes → Text
  formatRfc3339 : Bundles.Time → Option Text
  bundleFromJson : Bytes → Option Bundles.CaBundleResponse
  ackToJson : AckReport → Option Bytes
  heartbeatFromJson : Bytes → Option HeartbeatResponse

def Build.client (b : Build) (keypair : MachineKeypair) : Client where
  toCrypto := b.toCrypto
  sign := b.sign keypair
  base64Encode := b.base64Encode
  formatRfc3339 := b.formatRfc3339
  bundleFromJson := b.bundleFromJson
  ackToJson := b.ackToJson

/-- The startup time is read when the state is built, which is before the daemon runs. -/
structure AppState where
  config : Configs.Config
  startupTime : Bundles.Time

variable (b : Build) (state : AppState)

/-- The clients that a start builds for the identity and the keypairs it found. -/
def clients (host : HostFacts) (identity : MachineIdentity) (heartbeatKeypair syncKeypair :
    MachineKeypair) : Heartbeats.Daemon where
  agentVersion := b.agentVersion
  host := host
  startup := state.startupTime
  heartbeat := {
    client := b.client heartbeatKeypair
    machineId := identity.machineId
    serverUrl := identity.serverUrl
    responseFromJson := b.heartbeatFromJson
  }
  sync := syncService state.config.forEnrollment (b.client syncKeypair) identity

/-- The cadence of an interval of whole seconds. -/
def cadence (secs : UInt64) : JitteredInterval :=
  JitteredInterval.new (ofSecs secs.toNat) state.config.pollJitterRatio

/-- What a start does before it asks whether to go on. -/
def enrolledStart (fuel : Nat) : AgentAction (HostFacts × MachineIdentity) := do
  ensureStateDir
  installSignalHandlers
  let host ← askHost .hostFacts
  let identity ← enrollAction
    (ensureEnrolled b.toPlatform state.config.forEnrollment host.hostname fuel)
  pure (host, identity)

/-- What a start loads and builds behind the enrollment. -/
def recover (host : HostFacts) (identity : MachineIdentity) :
    AgentAction (Heartbeats.Daemon × UInt64 × Scheduler) := do
  let heartbeatKeypair ← enrollAction (readKeypair b.toPlatform)
  let syncKeypair ← enrollAction (readKeypair b.toPlatform)
  let generation ← daemonAction (syncing readRuntimeGeneration)
  let _ ← daemonAction loadStatus
  askChecked .newTransport fun answer => answer
  askChecked .newTransport fun answer => answer
  let d := clients b state host identity heartbeatKeypair syncKeypair
  let now ← daemonAction (syncing clockNow)
  let (scheduler, _) ← loopAction d (d.startingStatus generation)
    (Scheduler.new now (cadence state identity.heartbeatInterval)
      (cadence state identity.syncInterval))
  pure (d, generation, scheduler)

/-- The first contacts and the poll loop, unrolled `fuel` times, up to the last status. -/
def serve (d : Heartbeats.Daemon) (generation : UInt64) (scheduler : Scheduler) (fuel : Nat) :
    AgentAction Unit := do
  daemonAction (saveStatus (d.startingStatus generation))
  let status ← daemonAction (d.recordHeartbeat (d.startingStatus generation))
  let status ← daemonAction (d.recordSync status)
  let (_, status) ← loopAction d status (runPollLoop InterruptibleSleeper.new scheduler fuel)
  daemonAction (saveStatus { status with cleanShutdown := true })

/-- What a start does with the identity it has. -/
def goOn (host : HostFacts) (identity : MachineIdentity) (fuel : Nat) : AgentAction Unit := do
  if ← isRequested then pure ()
  else
    let (d, generation, scheduler) ← recover b state host identity
    serve d generation scheduler fuel

/-- `Daemon::run`, with its two loops unrolled this often. -/
def run (enrollFuel pollFuel : Nat) : AgentAction Unit := do
  let (host, identity) ← enrolledStart b state enrollFuel
  goOn b state host identity pollFuel

end MayflyAgent.Daemons
