import MayflyAgent.Enrollment
import MayflyAgent.Heartbeats
import Mathlib.Data.Rat.Defs
import Mathlib.Algebra.Order.Field.Rat

/-!
The poll loop and the retry loop, after `service/scheduler.rs`, `service/backoff.rs` and
`service/shutdown.rs`, and their start in `service/daemon.rs`. The clock, the jitter, the sleeper,
the poll actions and the shutdown flag are calls. The floating point products of a delay are taken
for granted: a drawn delay is an answer, and what it may be is left to the environment. Durations
are numbers of nanoseconds.
-/
namespace MayflyAgent.Scheduling

open Programs Errors Bundles Enrollment
open Heartbeats (PollAction)

def ofMillis (millis : Nat) : Nat := millis * 1000000

def ofSecs (secs : Nat) : Nat := secs * 1000000000

/-- Sums of dates and durations panic outside the years that a date can have. -/
inductive Panic
  | dateOverflow
  deriving DecidableEq

/-- The last nanosecond of the year 9999. -/
def maxTime : Time := 253402300800 * nanosPerSecond - 1

def addDuration (t : Time) (d : Nat) : Except Panic Time :=
  if t + d ≤ maxTime then .ok (t + d) else .error .dateOverflow

structure JitteredInterval where
  base : Nat
  ratio : ℚ
  nonneg : 0 ≤ ratio
  le_one : ratio ≤ 1
  deriving DecidableEq

/-- The ratio is clamped; `none` stands for a ratio that is not finite. -/
def JitteredInterval.new (base : Nat) (ratio : Option ℚ) : JitteredInterval where
  base := base
  ratio := min (max (ratio.getD 0) 0) 1
  nonneg := le_min (le_max_right _ _) (by decide)
  le_one := min_le_right _ _

/-- The base and all of its jitter. -/
def JitteredInterval.largest (interval : JitteredInterval) : ℚ :=
  interval.base * (1 + interval.ratio)

/-- The delays that can be drawn: the base and at most its jitter, which is rounded to the nearest
nanosecond. -/
def JitteredInterval.Allows (interval : JitteredInterval) (delay : Nat) : Prop :=
  interval.base ≤ delay ∧ (delay : ℚ) ≤ interval.largest + 1 / 2

/-! Calls. The draws and the initial contacts name the cadence they are for. -/

inductive LoopOp
  | now
  | nextDelay (action : PollAction) (interval : JitteredInterval)
  | sleep (duration : Nat)
  | shouldContinue (cycle : UInt64)
  | act (action : PollAction)
  | contact (action : PollAction)
  | isRequested
  | threadSleep (chunk : Nat)
  | attempt (attempt : UInt32)
  | backoffDelay (attempt : UInt32)
  deriving DecidableEq

/-- An attempt yields a `T`. -/
@[reducible] def LoopOp.Answer (T : Type) : LoopOp → Type
  | now => Time
  | nextDelay _ _ => Nat
  | sleep _ => Unit
  | shouldContinue _ => Bool
  | act _ => Except Error Unit
  | contact _ => Except Error Unit
  | isRequested => Bool
  | threadSleep _ => Unit
  | attempt _ => Except Error T
  | backoffDelay _ => Nat

abbrev loopSignature (T : Type) : Signature := { Op := LoopOp, Answer := LoopOp.Answer T }

variable {T : Type}

abbrev LoopAction (T : Type) := Action (loopSignature T) Panic

abbrev LoopEvent (T : Type) := Event (loopSignature T)

def ask {ε : Type} (op : LoopOp) : Action (loopSignature T) ε (op.Answer T) :=
  Action.perform (S := loopSignature T) op

def clockNow : LoopAction T Time := ask .now

structure Scheduler where
  heartbeat : JitteredInterval
  sync : JitteredInterval
  heartbeatDue : Time
  syncDue : Time

/-- The due time of a cadence that is scheduled now. -/
def dueFrom (now : Time) (action : PollAction) (interval : JitteredInterval) :
    LoopAction T Time := do
  let delay : Nat ← ask (.nextDelay action interval)
  Action.ofExcept (addDuration now delay)

def Scheduler.new (now : Time) (heartbeat sync : JitteredInterval) : LoopAction T Scheduler := do
  let heartbeatDue ← dueFrom now .heartbeat heartbeat
  let syncDue ← dueFrom now .bundleSync sync
  pure { heartbeat := heartbeat, sync := sync, heartbeatDue := heartbeatDue, syncDue := syncDue }

def Scheduler.nextDue (s : Scheduler) : Time := min s.heartbeatDue s.syncDue

def Scheduler.interval (s : Scheduler) : PollAction → JitteredInterval
  | .heartbeat => s.heartbeat
  | .bundleSync => s.sync

def Scheduler.dueOf (s : Scheduler) : PollAction → Time
  | .heartbeat => s.heartbeatDue
  | .bundleSync => s.syncDue

def Scheduler.setDue (s : Scheduler) : PollAction → Time → Scheduler
  | .heartbeat, due => { s with heartbeatDue := due }
  | .bundleSync, due => { s with syncDue := due }

/-- What `take_due` does for one cadence. -/
def Scheduler.take (s : Scheduler) (now : Time) (action : PollAction) :
    LoopAction T (List PollAction × Scheduler) := do
  if s.dueOf action ≤ now then
    let due ← dueFrom now action (s.interval action)
    pure ([action], s.setDue action due)
  else pure ([], s)

def Scheduler.takeDue (s : Scheduler) (now : Time) :
    LoopAction T (List PollAction × Scheduler) := do
  let (heartbeats, s) ← s.take now .heartbeat
  let (syncs, s) ← s.take now .bundleSync
  pure (heartbeats ++ syncs, s)

/-- The failure of an action is only logged. -/
def runActions : List PollAction → LoopAction T Unit
  | [] => pure ()
  | action :: rest => do
    let _ ← ask (.act action)
    runActions rest

section Loop

variable (sleep : Nat → LoopAction T Unit) (shouldContinue : UInt64 → LoopAction T Bool)

def waitDue (s : Scheduler) : LoopAction T Unit := do
  let now ← clockNow
  let wait := s.nextDue - now
  if 0 < wait then sleep wait.toNat
  else pure ()

def pollCycle (s : Scheduler) : LoopAction T Scheduler := do
  waitDue sleep s
  let now ← clockNow
  let (due, s) ← s.takeDue now
  runActions due
  pure s

/-- The loop from this cycle on, unrolled `fuel` times. -/
def runPolling (s : Scheduler) (cycle : UInt64) : Nat → LoopAction T Scheduler
  | 0 => ExceptT.mk Program.running
  | fuel + 1 => do
    if ← shouldContinue cycle then
      let s ← pollCycle sleep s
      runPolling s (cycle + 1) fuel
    else pure s

/-- `Daemon::run` from the creation of the scheduler on. -/
def startPolling (heartbeat sync : JitteredInterval) (fuel : Nat) : LoopAction T Scheduler := do
  let now ← clockNow
  let s ← Scheduler.new now heartbeat sync
  let _ ← ask (.contact .heartbeat)
  let _ ← ask (.contact .bundleSync)
  runPolling sleep shouldContinue s 0 fuel

end Loop

structure InterruptibleSleeper where
  step : Nat
  positive : 0 < step

def defaultSleepStep : Nat := ofMillis 500

def InterruptibleSleeper.new : InterruptibleSleeper where
  step := defaultSleepStep
  positive := by decide

def InterruptibleSleeper.withStep (step : Nat) : InterruptibleSleeper where
  step := max step (ofMillis 1)
  positive := lt_max_of_lt_right (by decide)

def isRequested {ε : Type} : Action (loopSignature T) ε Bool := ask .isRequested

/-- Sleeping ends because every chunk shortens what remains. -/
def InterruptibleSleeper.sleep {ε : Type} (sleeper : InterruptibleSleeper) (remaining : Nat) :
    Action (loopSignature T) ε Unit := do
  if _h : remaining = 0 then pure ()
  else if ← isRequested then pure ()
  else
    let chunk := min remaining sleeper.step
    let _ ← ask (.threadSleep chunk)
    sleeper.sleep (remaining - chunk)
termination_by remaining
decreasing_by
  have hpositive := sleeper.positive
  show remaining - min remaining sleeper.step < remaining
  omega

/-- What the daemon has both loops ask before they go on. -/
def notRequested {ε : Type} : Action (loopSignature T) ε Bool := do
  let requested ← isRequested
  pure !requested

/-- The poll loop of the daemon does not look at the number of the cycle. -/
def runPollLoop (sleeper : InterruptibleSleeper) (s : Scheduler) (fuel : Nat) :
    LoopAction T Scheduler :=
  runPolling sleeper.sleep (fun _ => notRequested) s 0 fuel

/-- The loop of `retry_with_backoff` after `attempt` failures, unrolled `fuel` times. -/
def retryWithBackoff {S : Signature} {ε α : Type} (shouldContinue : Action S ε Bool)
    (op : UInt32 → Action S ε α) (backoff : UInt32 → Action S ε Unit) (unattempted : ε)
    (attempt : UInt32) (lastErr : Option ε) : Nat → Action S ε α
  | 0 => ExceptT.mk Program.running
  | fuel + 1 => do
    if ← shouldContinue then
      let attempt := nextAttempt attempt
      match ← (op attempt).attempt with
      | .ok value => pure value
      | .error err =>
        if ← shouldContinue then
          backoff attempt
          retryWithBackoff shouldContinue op backoff unattempted attempt (some err) fuel
        else throw err
    else throw (lastErr.getD unattempted)

/-- The retry loop of the daemon. -/
def retryLoop (sleeper : InterruptibleSleeper) (fuel : Nat) : Action (loopSignature T) Error T :=
  retryWithBackoff notRequested
    (fun attempt => do
      let answer : Except Error T ← ask (.attempt attempt)
      Action.ofExcept answer)
    (fun attempt => do
      let delay : Nat ← ask (.backoffDelay attempt)
      sleeper.sleep delay)
    .enrollmentTransport 0 none fuel

/-- Enrollment retries in this loop. -/
theorem retryWithBackoff_enrollment {α : Type} (op : EnrollAction α) (fuel : Nat) :
    ∀ (attempt : UInt32) (lastErr : Option Error),
    Enrollment.retryWithBackoff op attempt lastErr fuel =
      retryWithBackoff (do
          let requested ← shutdownRequested
          pure !requested)
        (fun _ => op)
        (fun attempt => do
          let _ ← Enrollment.ask (.sleep attempt)
          pure ())
        .enrollmentTransport attempt lastErr fuel := by
  induction fuel with
  | zero => exact fun _ _ => rfl
  | succ fuel ih =>
    intro attempt lastErr
    simp only [Enrollment.retryWithBackoff, retryWithBackoff, bind_assoc, pure_bind]
    refine congrArg _ (funext fun requested => ?_)
    cases requested with
    | true => rfl
    | false =>
      simp only [Bool.not_false, Bool.false_eq_true, if_true, if_false]
      refine congrArg _ (funext fun outcome => ?_)
      cases outcome with
      | ok value => rfl
      | error err =>
        dsimp only
        refine congrArg _ (funext fun requested => ?_)
        cases requested with
        | true => rfl
        | false =>
          simp only [Bool.not_false, Bool.false_eq_true, if_true, if_false]
          exact congrArg _ (funext fun _ => ih _ _)

end MayflyAgent.Scheduling
