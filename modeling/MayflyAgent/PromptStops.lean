import MayflyAgent.Attempts
import MayflyAgent.CallLists
import MayflyAgent.CleanStops
import MayflyAgent.Shutdowns
import Mathlib.Data.List.Flatten

/-!
What a process still asks of the server and of the helper once it was asked to stop. Whenever that
happens, it completes what it is about at most: an enrollment, a heartbeat, a pass. The two loops
check the flag before they go on, and the start checks it behind the enrollment.
-/
namespace MayflyAgent.PromptStops

open RustText Programs Budgets Errors Bundles CaSync Daemons Lifecycles
open Heartbeats (PollAction RuntimeStatus saveStatus syncing)
open Enrollment (EnrollOp EnrollAction MachineIdentity Platform ensureEnrolled attemptEnrollment
  enroll clientEnroll pinBundleSigningKey)
open Scheduling (LoopOp LoopAction InterruptibleSleeper Scheduler runPolling pollCycle runActions
  notRequested)

variable {b : Build} {α β : Type}

inductive Contact
  | enrollment
  | heartbeat
  | fetch
  | apply
  | acknowledgement
  deriving DecidableEq

def syncContact : SyncOp → Option Contact
  | .get _ => some .fetch
  | .apply _ => some .apply
  | .post _ => some .acknowledgement
  | _ => none

def enrollContact : EnrollOp → Option Contact
  | .postJson _ _ => some .enrollment
  | _ => none

/-- The contact that a call of the process makes. -/
def contact : agentSignature.Op → Option Contact
  | .inl (.inl op) => syncContact op
  | .inl (.inr (.heartbeatPost _)) => some .heartbeat
  | .inl (.inr _) => none
  | .inr (.inl op) => enrollContact op
  | .inr (.inr _) => none

def passContacts : List Contact := [.fetch, .apply, .acknowledgement]

def actionContacts : PollAction → List Contact
  | .heartbeat => [.heartbeat]
  | .bundleSync => passContacts

/-- One heartbeat and one pass. -/
def batchContacts : List Contact := .heartbeat :: passContacts

section Passes

variable (s : CaSyncService)

abbrev Quiet (x : SyncAction α) : Prop := x.run.Calls fun op => syncContact op = none

theorem quiet_readFile (file : StateFiles.StateFile) : Quiet (readFile file) := calls_perform rfl

theorem quiet_secureWrite (file : StateFiles.StateFile) (contents : Bytes) (mode : UInt32) :
    Quiet (secureWrite file contents mode) := calls_bind (calls_perform rfl) fun _ => trivial

theorem quiet_writeTimestamp (file : StateFiles.StateFile) : Quiet (s.writeTimestamp file) :=
  calls_bind (calls_perform rfl) fun _ => calls_bind trivial fun _ => quiet_secureWrite _ _ _

theorem quiet_loadState : Quiet loadState := by
  have hread : ∀ file, Quiet (readOptionalString file) := fun file =>
    calls_bind (quiet_readFile file) fun _ => trivial
  refine calls_bind (calls_bind (quiet_readFile _) fun _ => trivial) fun _ => ?_
  exact calls_bind (hread _) fun _ => calls_bind (hread _) fun _ => trivial

theorem quiet_sign (method path : Text) (body : Bytes) : Quiet (s.sign method path body) := by
  refine calls_bind (calls_perform rfl) fun _ => ?_
  exact calls_bind (calls_bind (calls_perform rfl) fun _ => trivial) fun _ => trivial

theorem quiet_persistPinIfNeeded (bundle : CaBundle) : Quiet (s.persistPinIfNeeded bundle) := by
  unfold CaSyncService.persistPinIfNeeded
  split
  · trivial
  refine calls_bind (calls_bind (quiet_readFile _) fun _ => trivial) fun existing => ?_
  split
  · trivial
  · exact quiet_secureWrite _ _ _

theorem quiet_persistAfterApply (bundle : CaBundle) : Quiet (s.persistAfterApply bundle) := by
  refine calls_bind (quiet_secureWrite _ _ _) fun _ => ?_
  refine calls_bind (quiet_secureWrite _ _ _) fun _ => ?_
  exact calls_bind (quiet_persistPinIfNeeded s bundle) fun _ => quiet_writeTimestamp s _

abbrev SyncKeeps (x : SyncAction α) (allowed : List Contact) : Prop :=
  KeepsTo (S := syncSignature) syncContact x.run allowed

theorem Quiet.keeps {x : SyncAction α} (hx : Quiet x) : SyncKeeps x [] := keepsTo_of_calls hx

theorem fetchBundle_keeps (fingerprint : Option Text) :
    SyncKeeps (s.fetchBundle fingerprint) [.fetch] := by
  refine (quiet_sign s _ _ _).keeps.andThen fun signed => ?_
  exact (keepsTo_perform (S := syncSignature) (.get _)).andThen fun _ => keepsTo_ofExcept _

theorem acknowledge_keeps (report : AckReport) :
    SyncKeeps (s.acknowledge report) [.acknowledgement] := by
  have htry : SyncKeeps (s.tryAcknowledge report) [.acknowledgement] := by
    refine (keepsTo_ofExcept _).andThen fun body => ?_
    refine (quiet_sign s _ _ _).keeps.andThen fun signed => ?_
    have hpost : ∀ request, SyncKeeps (transportPost request) [.acknowledgement] := fun request =>
      (keepsTo_perform (S := syncSignature) (.post request)).andThen fun _ => keepsTo_ofExcept _
    exact (hpost _).andThen fun _ => keepsTo_ofExcept _
  exact htry.attempt.andThen fun _ => keepsTo_pure _

/-- A pass fetches, applies and acknowledges at most once, in this order. -/
theorem synchronize_keeps : SyncKeeps s.synchronize passContacts := by
  unfold CaSyncService.synchronize
  refine quiet_loadState.keeps.andThen fun persisted => ?_
  refine (fetchBundle_keeps s _).andThen fun response => ?_
  refine (quiet_writeTimestamp s _).keeps.andThen fun _ => ?_
  have hnothing : ∀ {x : SyncAction SyncOutcome}, Quiet x →
      SyncKeeps x [.apply, .acknowledgement] := fun hx => hx.keeps.mono (List.nil_sublist _)
  split
  · exact hnothing (calls_bind (quiet_writeTimestamp s _) fun _ => trivial)
  split
  · exact hnothing trivial
  refine (keepsTo_ofExcept _).andThen fun raw => ?_
  refine (keepsTo_perform (S := syncSignature) .now).andThen fun now => ?_
  refine (keepsTo_ofExcept _).andThen fun bundle => ?_
  split
  · exact hnothing trivial
  split
  · exact hnothing (calls_bind (quiet_persistPinIfNeeded s _) fun _ =>
      calls_bind (quiet_writeTimestamp s _) fun _ => trivial)
  have happly : SyncKeeps (CaSyncService.apply bundle) [.apply] := by
    refine (keepsTo_ofExcept _).andThen fun _ => ?_
    exact (keepsTo_perform (S := syncSignature) (.apply _)).andThen fun _ => keepsTo_ofExcept _
  refine happly.andThen fun outcome => ?_
  cases outcome with
  | applied =>
    refine (quiet_persistAfterApply s bundle).keeps.andThen fun _ => ?_
    exact (acknowledge_keeps s _).andThen fun _ => keepsTo_pure _
  | rolledBack => exact (acknowledge_keeps s _).andThen fun _ => keepsTo_ofExcept _

end Passes

section Actions

variable (d : Heartbeats.Daemon)

abbrev DaemonKeeps (x : Heartbeats.DaemonAction α) (allowed : List Contact) : Prop :=
  KeepsTo (S := Heartbeats.daemonSignature) (fun op => contact (.inl op)) x.run allowed

theorem syncing_keeps {x : SyncAction α} {allowed : List Contact} (hx : SyncKeeps x allowed) :
    DaemonKeeps (syncing x) allowed := hx.inl

theorem saveStatus_keeps (status : RuntimeStatus) : DaemonKeeps (saveStatus status) [] :=
  keepsTo_of_calls (And.intro rfl fun _ => trivial)

theorem persistStatus_keeps (status : RuntimeStatus) :
    DaemonKeeps (Heartbeats.Daemon.persistStatus status) [] :=
  (saveStatus_keeps status).attempt.andThen fun _ => keepsTo_pure _

theorem now_keeps : DaemonKeeps (syncing clockNow) [] :=
  syncing_keeps (keepsTo_perform (S := syncSignature) .now)

theorem sendHeartbeat_keeps (c : Heartbeats.HeartbeatClient)
    (request : Heartbeats.HeartbeatRequest) :
    DaemonKeeps (c.sendHeartbeat request) [.heartbeat] := by
  have hnonce : DaemonKeeps (syncing generateNonce) [] :=
    syncing_keeps (keepsTo_of_calls (And.intro rfl fun _ => trivial))
  have hsign : DaemonKeeps (c.signHeartbeat request) [] :=
    now_keeps.andThen fun _ => hnonce.andThen fun _ => (keepsTo_ofExcept _).andThen fun _ =>
      keepsTo_pure _
  have hpost : ∀ http, DaemonKeeps (Heartbeats.heartbeatPost http) [.heartbeat] := fun http =>
    (keepsTo_perform (S := Heartbeats.daemonSignature) (.inr (.heartbeatPost http))).andThen
      fun _ => keepsTo_ofExcept _
  exact hsign.andThen fun _ => (hpost _).andThen fun _ => keepsTo_ofExcept _

theorem act_keeps (status : RuntimeStatus) (action : PollAction) :
    DaemonKeeps (d.act status action) (actionContacts action) := by
  cases action with
  | heartbeat =>
    refine now_keeps.andThen fun now => ?_
    refine (sendHeartbeat_keeps _ _).attempt.andThen fun result => ?_
    exact (persistStatus_keeps _).andThen fun _ => keepsTo_pure _
  | bundleSync =>
    refine (syncing_keeps (synchronize_keeps d.sync)).attempt.andThen fun result => ?_
    refine now_keeps.andThen fun now => ?_
    exact (persistStatus_keeps _).andThen fun _ => keepsTo_pure _

theorem daemonAction_keeps {x : Heartbeats.DaemonAction α} {allowed : List Contact}
    (hx : DaemonKeeps x allowed) : KeepsTo contact (daemonAction x).run allowed := by
  have hdone : ∀ r : Except Error α, KeepsTo contact
      (Program.done (r.mapError Ending.failed) : AgentProgram (Except Ending α)) [] :=
    fun _ => trivial
  have hinl : KeepsTo contact (x.run.inl : AgentProgram (Except Error α)) allowed :=
    KeepsTo.inl hx
  have h := hinl.bind hdone
  rwa [List.append_nil] at h

/-- What answering a call of the poll loop comes to. -/
def loopContacts : LoopOp → List Contact
  | .act action => actionContacts action
  | _ => []

theorem polling_keeps (status : RuntimeStatus) (op : LoopOp) :
    KeepsTo contact (polling d status op) (loopContacts op) := by
  cases op with
  | act action =>
    have h : KeepsTo contact (polling d status (.act action)) (actionContacts action ++ []) := by
      refine (KeepsTo.inl (act_keeps d status action)).bind fun result => ?_
      cases result <;> trivial
    rwa [List.append_nil] at h
  | now => exact ⟨[], List.Sublist.refl _, fun _ => trivial⟩
  | nextDelay action interval => exact ⟨[], List.Sublist.refl _, fun _ => trivial⟩
  | isRequested => exact ⟨[], List.Sublist.refl _, fun _ => trivial⟩
  | threadSleep chunk => exact ⟨[], List.Sublist.refl _, fun _ => trivial⟩
  | _ => trivial

/-- The call is no action. -/
def IsPause : LoopOp → Prop
  | .act _ => False
  | _ => True

theorem handled_keeps {status : RuntimeStatus} {x : LoopAction Unit α} (hx : x.run.Calls IsPause) :
    KeepsTo contact (handle (polling d) x.run status) [] := by
  generalize x.run = p at hx
  induction p generalizing status with
  | done a => trivial
  | running => trivial
  | call op next ih =>
    have hop : KeepsTo contact (polling d status op) [] := by
      cases op with
      | act action => exact hx.1.elim
      | _ => exact polling_keeps d status _
    exact hop.bind fun r => ih r.1 (hx.2 r.1)

theorem runActions_keeps (actions : List PollAction) : ∀ status,
    KeepsTo contact (handle (polling d) (runActions (T := Unit) actions).run status)
      (actions.flatMap actionContacts) := by
  induction actions with
  | nil => exact fun _ => trivial
  | cons action rest ih =>
    intro status
    exact KeepsTo.handle_bind (polling_keeps d status (.act action)).handle_perform
      (yieldsOk_trivial _) fun _ next _ => ih next

theorem pause_takeDue (s : Scheduler) (now : Bundles.Time) :
    (s.takeDue (T := Unit) now).run.Calls IsPause := by
  have htake : ∀ (s : Scheduler) action, (s.take (T := Unit) now action).run.Calls IsPause := by
    intro s action
    unfold Scheduler.take
    split
    · exact calls_bind (And.intro trivial fun _ => trivial) fun _ => trivial
    · trivial
  exact calls_bind (htake s .heartbeat) fun taken => calls_bind (htake taken.2 .bundleSync)
    fun _ => trivial

theorem pause_waitDue (sleeper : InterruptibleSleeper) (s : Scheduler) :
    (Scheduling.waitDue (T := Unit) sleeper.sleep s).run.Calls IsPause := by
  refine calls_bind (And.intro trivial fun _ => trivial) fun now => ?_
  dsimp only
  split
  · refine (Shutdowns.sleep_calls sleeper _).mono fun op hop => ?_
    rcases hop with rfl | ⟨chunk, rfl, _⟩
    · trivial
    · trivial
  · trivial

/-- A cycle of the poll loop is one batch at most. -/
theorem pollCycle_keeps (sleeper : InterruptibleSleeper) (s : Scheduler) (status : RuntimeStatus) :
    KeepsTo contact (handle (polling d) (pollCycle (T := Unit) sleeper.sleep s).run status)
      batchContacts := by
  refine KeepsTo.handle_bind (handled_keeps d (pause_waitDue sleeper s)) (yieldsOk_trivial _)
    fun _ status _ => ?_
  have hnow : (Scheduling.clockNow (T := Unit)).run.Calls IsPause := ⟨trivial, fun _ => trivial⟩
  refine KeepsTo.handle_bind (handled_keeps d hnow) (yieldsOk_trivial _) fun now status _ => ?_
  refine KeepsTo.handle_bind (handled_keeps d (pause_takeDue s now))
    (Shutdowns.takeDue_yields s now) fun taken status htaken => ?_
  have hactions := (runActions_keeps d taken.1 status).mono (htaken.flatMap actionContacts)
  exact KeepsTo.handle_bind hactions (yieldsOk_trivial _) fun _ _ _ => trivial

end Actions

section Enrolling

variable {p : Platform}

def Requested (w : Computer) : Prop := w.requested = true

theorem requested_kept (w : Computer) (op : agentSignature.Op) (answer : agentSignature.Answer op)
    (w' : Computer) (h : living w op answer w') : Requested w → Requested w' := h.1

theorem enrolling_kept (w : Computer) (op : EnrollOp) (answer : op.Answer) (w' : Computer)
    (h : living w (.inr (.inl op)) answer w') : Requested w → Requested w' := h.1

/-- Behind the request a check sees it. -/
theorem check_sees (w : Computer) (seen : Bool) (w' : Computer)
    (h : living w (.inr (.inl .shutdownRequested)) seen w') (hw : Requested w) :
    Requested w' ∧ seen = true := ⟨h.1 hw, h.2.2.2.1 hw⟩

abbrev EnrollKeeps (x : EnrollAction α) (allowed : List Contact) : Prop :=
  KeepsTo (S := Enrollment.enrollSignature) enrollContact x.run allowed

abbrev EnrollWinds (x : EnrollAction α) (behind during : List Contact) : Prop :=
  WindsTo (S := Enrollment.enrollSignature)
    (fun w op answer w' => living w (.inr (.inl op)) answer w')
    enrollContact Requested behind during x.run

theorem keeps_of_onDisk {x : EnrollAction α} (hx : EndsCalling Attempts.OnDisk x.run) :
    EnrollKeeps x [] := by
  refine keepsTo_of_calls (hx.calls.mono fun op hop => ?_)
  cases op with
  | postJson url body => exact hop.elim
  | _ => rfl

theorem clientEnroll_keeps (serverUrl : Text) (request : Enrollment.EnrollmentRequest) :
    EnrollKeeps (clientEnroll p serverUrl request) [.enrollment] := by
  refine (keepsTo_ofExcept _).andThen fun body => ?_
  refine (keepsTo_perform (S := Enrollment.enrollSignature) (.postJson _ body)).andThen
    fun answer => ?_
  refine (keepsTo_ofExcept _).andThen fun response => (keepsTo_ofExcept _).andThen fun _ => ?_
  refine (keepsTo_ofExcept _).andThen fun parsed => ?_
  exact (keepsTo_perform (S := Enrollment.enrollSignature) (.setLastResponse parsed)).andThen
    fun _ => keepsTo_pure _

/-- An attempt asks the server once at most. -/
theorem attemptEnrollment_keeps (config : Enrollment.Config) (token hostname : Text) :
    EnrollKeeps (attemptEnrollment p config token hostname) [.enrollment] := by
  have henroll : EnrollKeeps (enroll p config.serverUrl token hostname) [.enrollment] := by
    have hfound : EnrollKeeps Enrollment.isEnrolled [] :=
      keepsTo_perform (S := Enrollment.enrollSignature) (.isFile .record)
    refine hfound.andThen fun found => ?_
    split
    · exact (keepsTo_ofExcept (.error _)).mono (List.nil_sublist _)
    refine (keepsTo_ofExcept _).andThen fun _ => (keepsTo_ofExcept _).andThen fun _ => ?_
    refine (keepsTo_ofExcept _).andThen fun _ => ?_
    refine (keeps_of_onDisk Attempts.ends_loadOrGenerateKeypair).andThen fun keypair => ?_
    refine (keepsTo_ofExcept _).andThen fun request => ?_
    exact (clientEnroll_keeps _ _).andThen fun response =>
      keeps_of_onDisk (Attempts.ends_persistMachineIdentity _ _ _ _)
  refine henroll.attempt.andThen fun result => ?_
  split
  · exact keepsTo_pure _
  · exact keeps_of_onDisk Attempts.ends_loadMachineIdentity
  · exact keepsTo_ofExcept (.error _)

/-- The retry loop makes no attempt behind a check that saw the request. -/
theorem retryWithBackoff_winds {op : EnrollAction α} (hop : EnrollKeeps op [.enrollment])
    (fuel : Nat) : ∀ (attempt : UInt32) (lastErr : Option Error),
    EnrollWinds (Enrollment.retryWithBackoff op attempt lastErr fuel) [] [.enrollment] := by
  induction fuel with
  | zero => exact fun _ _ => winds_running.mono (List.Sublist.refl _) (List.nil_sublist _)
  | succ fuel ih =>
    intro attempt lastErr
    have hstop : ∀ (e : Error) {behind during : List Contact},
        EnrollWinds (throw e : EnrollAction α) behind during := fun e _ _ =>
      (winds_done (Except.error e)).mono (List.nil_sublist _) (List.nil_sublist _)
    refine winds_check rfl check_sees (fun seen hseen => ?_) fun (seen : Bool) => ?_
    · obtain rfl : seen = true := hseen
      exact hstop _
    cases seen with
    | true => exact hstop _
    | false =>
      refine hop.attempt.winds.andThen enrolling_kept (fun result => ?_) (List.Sublist.refl _)
        (List.Sublist.refl _)
      cases result with
      | ok value =>
        exact (winds_done (Except.ok value)).mono (List.Sublist.refl _) (List.nil_sublist _)
      | error err =>
        refine winds_check rfl check_sees (fun seen hseen => ?_) fun (seen : Bool) => ?_
        · obtain rfl : seen = true := hseen
          exact hstop _
        cases seen with
        | true => exact hstop _
        | false =>
          have hsleep : EnrollWinds (Enrollment.ask (.sleep (Enrollment.nextAttempt attempt)))
              [] [] := (keepsTo_perform (S := Enrollment.enrollSignature) (.sleep _)).winds
          exact (hsleep.andThen enrolling_kept (fun _ => ih _ _) (List.nil_sublist _)
            (List.Sublist.refl _)).mono (List.nil_sublist _) (List.Sublist.refl _)

theorem ensureEnrolled_winds (config : Enrollment.Config) (hostname : Text) (fuel : Nat) :
    EnrollWinds (ensureEnrolled p config hostname fuel) [] [.enrollment] := by
  have hask : ∀ {op : EnrollOp} {f : op.Answer → EnrollAction MachineIdentity},
      enrollContact op = none → (∀ answer, EnrollWinds (f answer) [] [.enrollment]) →
      EnrollWinds (Enrollment.ask op >>= f) [] [.enrollment] := by
    intro op f hop hf
    have hperform : EnrollWinds (Enrollment.ask op) [] [] := by
      have h : KeepsTo enrollContact
          (Action.perform (S := Enrollment.enrollSignature) (ε := Error) op).run
          (enrollContact op).toList :=
        keepsTo_perform (S := Enrollment.enrollSignature) (ε := Error) op
      rw [hop] at h
      exact h.winds
    exact hperform.andThen enrolling_kept hf (List.nil_sublist _) (List.Sublist.refl _)
  have hcheck : ∀ {γ : Type} {r : Except Error γ} {f : γ → EnrollAction MachineIdentity},
      (∀ a, EnrollWinds (f a) [] [.enrollment]) →
      EnrollWinds (Action.ofExcept r >>= f) [] [.enrollment] := by
    intro γ r f hf
    have hr : EnrollWinds (Action.ofExcept r) [] [] := (keepsTo_ofExcept r).winds
    exact hr.andThen enrolling_kept hf (List.nil_sublist _) (List.Sublist.refl _)
  have hquiet : ∀ {x : EnrollAction MachineIdentity}, EnrollKeeps x [] →
      EnrollWinds x [] [.enrollment] :=
    fun hx => hx.winds.mono (List.Sublist.refl _) (List.nil_sublist _)
  refine hask rfl fun found => ?_
  split
  · exact hquiet (keeps_of_onDisk Attempts.ends_loadMachineIdentity)
  refine hask rfl fun token => hcheck fun token => hcheck fun _ => ?_
  refine hask rfl fun client => hcheck fun _ => ?_
  refine WindsTo.andThen enrolling_kept
    (retryWithBackoff_winds (attemptEnrollment_keeps config token hostname) fuel 0 none)
    (fun identity => ?_) (List.Sublist.refl _) (List.Sublist.refl _)
  refine hask rfl fun response => ?_
  cases response with
  | none => exact hquiet (keepsTo_pure _)
  | some response =>
    have hpin : (pinBundleSigningKey config response.bundleSigningKey).run.Calls
        fun op => enrollContact op = none := by
      unfold pinBundleSigningKey
      split
      · trivial
      split
      · trivial
      refine calls_bind (calls_perform rfl) fun answer => calls_bind trivial fun existing => ?_
      split
      · trivial
      · exact calls_bind (calls_perform rfl) fun _ => calls_bind trivial fun _ => trivial
    exact hquiet ((keepsTo_of_calls hpin).andThen fun _ => keepsTo_pure _)

end Enrolling

section Processes

abbrev AgentWinds (x : AgentAction α) (behind during : List Contact) : Prop :=
  WindsTo living contact Requested behind during x.run

abbrev QuietAgent (x : AgentAction α) : Prop := x.run.Calls fun op => contact op = none

theorem QuietAgent.winds {x : AgentAction α} (hx : QuietAgent x) : AgentWinds x [] [] :=
  (keepsTo_of_calls hx).winds

theorem enrollAction_winds {x : EnrollAction α} {behind during : List Contact}
    (hx : EnrollWinds x behind during) : AgentWinds (enrollAction x) behind during :=
  have hinr : WindsTo living contact Requested behind during
      (x.run.inl.inr : AgentProgram (Except Error α)) := WindsTo.inr hx.inl
  hinr.last requested_kept

theorem daemonAction_winds {x : Heartbeats.DaemonAction α} {allowed : List Contact}
    (hx : DaemonKeeps x allowed) : AgentWinds (daemonAction x) allowed allowed :=
  (daemonAction_keeps hx).winds

variable {d : Heartbeats.Daemon}

/-- The poll loop runs no cycle behind a check that saw the request. -/
theorem runPolling_winds (sleeper : InterruptibleSleeper) (fuel : Nat) :
    ∀ (s : Scheduler) (cycle : UInt64) (status : RuntimeStatus),
    WindsTo living contact Requested [] batchContacts
      (handle (polling d) (runPolling (T := Unit) sleeper.sleep (fun _ => notRequested) s cycle
        fuel).run status) := by
  induction fuel with
  | zero =>
    exact fun _ _ _ => winds_running.mono (List.Sublist.refl _) (List.nil_sublist _)
  | succ fuel ih =>
    intro s cycle status
    refine winds_check rfl check_sees (fun seen hseen => ?_) fun (seen : Bool) => ?_
    · obtain rfl : seen = true := hseen
      exact (winds_done _).mono (List.Sublist.refl _) (List.nil_sublist _)
    cases seen with
    | true => exact (winds_done _).mono (List.nil_sublist _) (List.nil_sublist _)
    | false =>
      exact WindsTo.handle_bind requested_kept (pollCycle_keeps d sleeper s status).winds
        (fun s next => ih s (cycle + 1) next) (List.Sublist.refl _) (List.Sublist.refl _)

theorem loopAction_winds {status : RuntimeStatus} {x : LoopAction Unit α}
    {behind during : List Contact}
    (hx : WindsTo living contact Requested behind during (handle (polling d) x.run status)) :
    AgentWinds (loopAction d status x) behind during := by
  have h : AgentWinds (loopAction d status x) (behind ++ []) during := by
    refine hx.bind requested_kept (fun r => ?_) (by rw [List.append_nil]) (List.nil_sublist _)
    obtain ⟨r, next⟩ := r
    cases r with
    | ok a => exact winds_done _
    | error panic => exact winds_done _
  rwa [List.append_nil] at h

theorem serve_winds (generation : UInt64) (scheduler : Scheduler) (fuel : Nat) :
    AgentWinds (serve d generation scheduler fuel) batchContacts batchContacts := by
  have hrefl := List.Sublist.refl batchContacts
  have hsave : ∀ status, AgentWinds (daemonAction (saveStatus status)) [] [] :=
    fun status => daemonAction_winds (saveStatus_keeps status)
  have hpass : (passContacts ++ []).Sublist batchContacts := List.sublist_cons_self _ _
  unfold serve
  refine (hsave _).andThen requested_kept (fun _ => ?_) hrefl hrefl
  refine (daemonAction_winds (act_keeps d _ .heartbeat)).andThen requested_kept
    (fun status => ?_) hrefl hrefl
  refine ((daemonAction_winds (act_keeps d status .bundleSync)).andThen requested_kept
    (fun status => ?_) hpass hrefl).mono (List.Sublist.refl _) hrefl
  have hloop : AgentWinds (loopAction d status
      (Scheduling.runPollLoop InterruptibleSleeper.new scheduler fuel)) [] batchContacts :=
    loopAction_winds (runPolling_winds InterruptibleSleeper.new fuel scheduler 0 status)
  exact hloop.andThen requested_kept (fun r => hsave _) hrefl (List.nil_sublist _)

theorem quiet_askChecked (op : HostOp) (check : op.Answer → Except Error α) :
    QuietAgent (askChecked op check) := calls_bind (calls_perform rfl) fun _ => trivial

theorem recover_quiet (state : AppState) (host : Heartbeats.HostFacts)
    (identity : MachineIdentity) : QuietAgent (recover b state host identity) := by
  refine (calls_recover host identity).mono fun op hop => ?_
  rcases op with (op | op) | (op | op)
  · cases op <;> first | rfl | cases hop
  · cases op with
    | heartbeatPost request => exact hop.elim
    | _ => rfl
  · cases op <;> first | rfl | cases hop
  · rfl

theorem goOn_winds (state : AppState) (host : Heartbeats.HostFacts) (identity : MachineIdentity)
    (fuel : Nat) : AgentWinds (goOn b state host identity fuel) [] batchContacts := by
  unfold goOn
  refine winds_check rfl check_sees (fun seen hseen => ?_) fun (seen : Bool) => ?_
  · obtain rfl : seen = true := hseen
    exact (winds_done _).mono (List.Sublist.refl _) (List.nil_sublist _)
  cases seen with
  | true => exact (winds_done _).mono (List.nil_sublist _) (List.nil_sublist _)
  | false =>
    refine (recover_quiet state host identity).winds.andThen requested_kept (fun recovered => ?_)
      (List.Sublist.refl _) (List.Sublist.refl _)
    obtain ⟨d, generation, scheduler⟩ := recovered
    exact serve_winds generation scheduler fuel

theorem enrolledStart_winds (state : AppState) (fuel : Nat) :
    AgentWinds (enrolledStart b state fuel) [] [.enrollment] := by
  have hrefl := List.Sublist.refl [Contact.enrollment]
  have hdir : QuietAgent ensureStateDir := calls_bind (quiet_askChecked _ _) fun _ =>
    calls_bind (quiet_askChecked _ _) fun _ => quiet_askChecked _ _
  have hsignals : QuietAgent installSignalHandlers :=
    calls_bind (quiet_askChecked _ _) fun _ => quiet_askChecked _ _
  have hfacts : QuietAgent (askHost .hostFacts) := ⟨rfl, fun _ => trivial⟩
  unfold enrolledStart
  refine hdir.winds.andThen requested_kept (fun _ => ?_) (List.nil_sublist _) hrefl
  refine hsignals.winds.andThen requested_kept (fun _ => ?_) (List.nil_sublist _) hrefl
  refine hfacts.winds.andThen requested_kept (fun host => ?_) (List.nil_sublist _) hrefl
  exact (enrollAction_winds (ensureEnrolled_winds _ _ fuel)).andThen requested_kept
    (fun identity => winds_done _) hrefl (List.nil_sublist _)

/-- All that a process still asks of the server and of the helper. -/
def lastContacts : List Contact := .enrollment :: batchContacts

theorem run_winds (state : AppState) (enrollFuel pollFuel : Nat) :
    AgentWinds (run b state enrollFuel pollFuel) [] lastContacts := by
  unfold run
  refine (enrolledStart_winds state enrollFuel).andThen requested_kept (fun started => ?_)
    ((List.nil_sublist _).cons_cons _) ((List.Sublist.refl _).cons _)
  obtain ⟨host, identity⟩ := started
  exact goOn_winds state host identity pollFuel

/-- Whenever a process is asked to stop, it makes one enrollment request, one heartbeat, one fetch,
one apply and one acknowledgement at most from then on, in this order. -/
theorem process_stops {x : Process} (h : x.Happens b) {past rest : List (AgentEvent Computer)}
    {e : AgentEvent Computer} (htrace : x.trace = past ++ e :: rest)
    (hrequested : e.after.requested = true) :
    (labels contact (e :: rest)).Sublist lastContacts := by
  obtain ⟨enrollFuel, pollFuel, hexec⟩ := h
  rw [htrace] at hexec
  exact (run_winds x.state enrollFuel pollFuel).during _ _ _ _ _ _ hexec hrequested

theorem sampleProcess_stopped : sampleServed.2.requested = true := by decide +kernel

theorem process_stops_sample : ∃ past e, sampleProcess.trace = past ++ [e] ∧
    e.after.requested = true ∧ (labels contact [e]).Sublist lastContacts := by
  have hexec := sampleProcess_exec
  rcases List.eq_nil_or_concat sampleProcess.trace with hnil | ⟨past, e, htrace⟩
  · rw [hnil] at hexec
    have hsame : sampleProcess.after.requested = false :=
      hexec.frame Computer.requested fun e he => by cases he
    exact absurd (hsame.symm.trans sampleProcess_stopped) Bool.false_ne_true
  · rw [List.concat_eq_append] at htrace
    rw [htrace, ← List.append_nil (past ++ [e])] at hexec
    obtain ⟨q, v, hleads, hend⟩ := exec_leads hexec
    have hsame : sampleProcess.after.requested = v.requested :=
      hend.frame Computer.requested fun e he => by cases he
    have hrequested : e.after.requested = true := by
      rw [← leads_after hleads, ← hsame]
      exact sampleProcess_stopped
    exact ⟨past, e, htrace, hrequested, process_stops sampleProcess_happens htrace hrequested⟩

end Processes

end MayflyAgent.PromptStops
