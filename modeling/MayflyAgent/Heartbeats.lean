import MayflyAgent.Helper

/-!
Heartbeats and the poll loop, after `protocol/heartbeat.rs`, `service/runtime_state.rs` and
`service/daemon.rs`. The daemon makes the calls of the CA-sync service and three of its own: the
heartbeat exchange, and loading and saving the runtime status. The applied generation is kept in
the status between the two cadences.
-/
namespace MayflyAgent.Heartbeats

open RustText Programs Checks Errors Bundles StateFiles CaSync Helper

structure HeartbeatRequest where
  agentVersion : Text
  hostname : Text
  os : Text
  kernel : Text
  ip : Text
  currentGeneration : UInt64
  uptimeSeconds : UInt64
  deriving DecidableEq

structure HeartbeatResponse where
  status : Text
  serverTime : Text
  nextHeartbeatSeconds : UInt64
  deriving DecidableEq

/-- The snapshot of the daemon's runtime state. -/
structure RuntimeStatus where
  agentVersion : Text
  machineId : Text
  startedAtUnix : Int
  lastHeartbeatUnix : Option Int
  lastHeartbeatOk : Option Bool
  lastSyncUnix : Option Int
  lastSyncOutcome : Option Text
  currentGeneration : UInt64
  cleanShutdown : Bool
  deriving DecidableEq

inductive DaemonOp
  | heartbeatPost (request : HttpRequest)
  | loadStatus
  | saveStatus (status : RuntimeStatus)
  deriving DecidableEq

def DaemonOp.Answer : DaemonOp → Type
  | heartbeatPost _ => Except Error HttpResponse
  | loadStatus => Except Error (Option RuntimeStatus)
  | saveStatus _ => Except Error Unit

abbrev ownSignature : Signature := { Op := DaemonOp, Answer := DaemonOp.Answer }

abbrev daemonSignature : Signature := syncSignature.sum ownSignature

abbrev DaemonProgram := Program daemonSignature

abbrev DaemonAction := Action daemonSignature Error

abbrev DaemonEvent := Event daemonSignature

/-- A call of the CA-sync service. -/
def syncing {α : Type} (x : SyncAction α) : DaemonAction α :=
  ExceptT.mk (x.run.inl : DaemonProgram (Except Error α))

def heartbeatPost (request : HttpRequest) : DaemonAction HttpResponse := do
  let answer : Except Error HttpResponse ←
    Action.perform (S := daemonSignature) (.inr (.heartbeatPost request))
  Action.ofExcept answer

def loadStatus : DaemonAction (Option RuntimeStatus) := do
  let answer : Except Error (Option RuntimeStatus) ←
    Action.perform (S := daemonSignature) (.inr .loadStatus)
  Action.ofExcept answer

def saveStatus (status : RuntimeStatus) : DaemonAction Unit := do
  let answer : Except Error Unit ←
    Action.perform (S := daemonSignature) (.inr (.saveStatus status))
  Action.ofExcept answer

def heartbeatPath : Text := text "/api/v1/agent/heartbeat"

def minNextHeartbeatSecs : UInt64 := 1

def maxNextHeartbeatSecs : UInt64 := 86400

def heartbeatJson (request : HeartbeatRequest) : Text :=
  text "\x7b\"agent_version\":" ++ jsonString request.agentVersion ++
    text ",\"hostname\":" ++ jsonString request.hostname ++
    text ",\"os\":" ++ jsonString request.os ++
    text ",\"kernel\":" ++ jsonString request.kernel ++
    text ",\"ip\":" ++ jsonString request.ip ++
    text ",\"current_generation\":" ++ decimal request.currentGeneration.toNat ++
    text ",\"uptime_seconds\":" ++ decimal request.uptimeSeconds.toNat ++ ['\x7d']

def heartbeatBody (request : HeartbeatRequest) : Bytes := encodeUtf8 (heartbeatJson request)

def validateResponse (response : HeartbeatResponse) : Except Error Unit := do
  rejectIf (trimText response.status = []) .invalidHeartbeatResponse
  rejectIf (response.nextHeartbeatSeconds < minNextHeartbeatSecs ∨
    maxNextHeartbeatSecs < response.nextHeartbeatSeconds) .invalidHeartbeatResponse
  rejectIf (trimText response.serverTime = []) .invalidHeartbeatResponse

/-- The keypair and formats of the CA-sync service, and the parser of responses. -/
structure HeartbeatClient where
  client : Client
  machineId : Text
  serverUrl : Text
  responseFromJson : Bytes → Option HeartbeatResponse

namespace HeartbeatClient

variable (c : HeartbeatClient)

/-- The signed request; serializing its body cannot fail. -/
def signHeartbeat (request : HeartbeatRequest) : DaemonAction HttpRequest := do
  let now ← syncing clockNow
  let nonce ← syncing generateNonce
  let signed ← Action.ofExcept (signRequest c.client c.machineId (unixTimestamp now) nonce
    (text "POST") heartbeatPath (heartbeatBody request))
  pure {
    url := joinUrl c.serverUrl heartbeatPath
    headers := (text "content-type", text "application/json") :: signingHeaders signed
    body := heartbeatBody request
  }

def acceptResponse (response : HttpResponse) : Except Error HeartbeatResponse := do
  rejectIf (isSuccess response.status = false) .heartbeatRejected
  let parsed ← okOr (c.responseFromJson response.body) .invalidHeartbeatResponse
  validateResponse parsed
  pure parsed

def sendHeartbeat (request : HeartbeatRequest) : DaemonAction HeartbeatResponse := do
  let signed ← c.signHeartbeat request
  let response ← heartbeatPost signed
  Action.ofExcept (c.acceptResponse response)

end HeartbeatClient

/-- `read_generation` of the runtime state, as a function of what reading the file gave. -/
def runtimeGenerationOf (answer : Except ReadError Bytes) : Except Error UInt64 := do
  let generation ← generationOf answer
  pure (generation.getD 0)

def readRuntimeGeneration : SyncAction UInt64 := do
  let answer ← readFile .generation
  Action.ofExcept (runtimeGenerationOf answer)

structure HostFacts where
  hostname : Text
  os : Text
  kernel : Text
  arch : Text
  ip : Text

structure Daemon where
  agentVersion : Text
  host : HostFacts
  startup : Time
  heartbeat : HeartbeatClient
  sync : CaSyncService

inductive PollAction
  | heartbeat
  | bundleSync
  deriving DecidableEq

/-- The generation that an outcome reports. -/
def reportedGeneration : SyncOutcome → UInt64
  | .notModified generation => generation
  | .unchanged generation => generation
  | .updated generation _ _ => generation

def outcomeLabel : SyncOutcome → Text
  | .notModified _ => text "not_modified"
  | .unchanged _ => text "unchanged"
  | .updated _ _ _ => text "updated"

/-- What a finished pass changes in the status. -/
def RuntimeStatus.afterSync (status : RuntimeStatus) (now : Time) :
    Except Error SyncOutcome → RuntimeStatus
  | .ok outcome => { status with
      lastSyncUnix := some (unixTimestamp now)
      lastSyncOutcome := some (outcomeLabel outcome)
      currentGeneration := reportedGeneration outcome }
  | .error _ => { status with
      lastSyncUnix := some (unixTimestamp now)
      lastSyncOutcome := some (text "error") }

namespace Daemon

variable (d : Daemon)

/-- `whole_seconds` truncates towards zero. -/
def uptimeSeconds (now : Time) : UInt64 :=
  UInt64.ofNat (max ((now - d.startup).tdiv nanosPerSecond) 0).toNat

def heartbeatRequest (status : RuntimeStatus) (now : Time) : HeartbeatRequest where
  agentVersion := d.agentVersion
  hostname := d.host.hostname
  os := d.host.os
  kernel := d.host.kernel
  ip := d.host.ip
  currentGeneration := status.currentGeneration
  uptimeSeconds := d.uptimeSeconds now

/-- A failure to save the status is only logged. -/
def persistStatus (status : RuntimeStatus) : DaemonAction Unit := do
  let _ ← (saveStatus status).attempt
  pure ()

/-- One heartbeat; its failure is recorded and left at that. -/
def recordHeartbeat (status : RuntimeStatus) : DaemonAction RuntimeStatus := do
  let now ← syncing clockNow
  let result ← (d.heartbeat.sendHeartbeat (d.heartbeatRequest status now)).attempt
  let recorded : RuntimeStatus := { status with
    lastHeartbeatUnix := some (unixTimestamp now)
    lastHeartbeatOk := some result.isOk }
  persistStatus recorded
  pure recorded

/-- One pass; its failure is recorded and left at that. -/
def recordSync (status : RuntimeStatus) : DaemonAction RuntimeStatus := do
  let result ← (syncing d.sync.synchronize).attempt
  let now ← syncing clockNow
  persistStatus (status.afterSync now result)
  pure (status.afterSync now result)

def act (status : RuntimeStatus) : PollAction → DaemonAction RuntimeStatus
  | .heartbeat => d.recordHeartbeat status
  | .bundleSync => d.recordSync status

/-- The actions of the poll loop, in the order in which they become due. -/
def poll : List PollAction → RuntimeStatus → DaemonAction RuntimeStatus
  | [], status => pure status
  | action :: actions, status => do
    let next ← d.act status action
    poll actions next

def startingStatus (generation : UInt64) : RuntimeStatus where
  agentVersion := d.agentVersion
  machineId := d.heartbeat.machineId
  startedAtUnix := unixTimestamp d.startup
  lastHeartbeatUnix := none
  lastHeartbeatOk := none
  lastSyncUnix := none
  lastSyncOutcome := none
  currentGeneration := generation
  cleanShutdown := false

/-- `Daemon::run` from the recovery of the state on. Its first two actions are a heartbeat and a
pass; here they may be any. -/
def run (actions : List PollAction) : DaemonAction RuntimeStatus := do
  let generation ← syncing readRuntimeGeneration
  let _ ← loadStatus
  saveStatus (d.startingStatus generation)
  let status ← d.poll actions (d.startingStatus generation)
  let stopped := { status with cleanShutdown := true }
  saveStatus stopped
  pure stopped

end Daemon

end MayflyAgent.Heartbeats
