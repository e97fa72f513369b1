import MayflyAgent.Heartbeats
import MayflyAgent.Acknowledgements

/-!
The poll loop with the state file and the status in step. A heartbeat reports the generation that
the status holds, a pass changes it together with the generation file, and a pass that fails
changes neither. So every heartbeat carries the generation a restarted daemon would recover, which
is the last one that the helper confirmed.
-/
namespace MayflyAgent.PollingRuns

open RustText Programs Checks Errors Bundles BundleValidation TrustedCa StateFiles CaSync
open SyncPasses SyncCourses SyncProgress SyncResults Acknowledgements Heartbeats

/-- Writes of state files succeed and clock readings can be formatted. The servers, the helper and
the status file answer at will. -/
def steady (client : Client) (dir : StateDir) :
    (op : daemonSignature.Op) → daemonSignature.Answer op → StateDir → Prop
  | .inl (.read file), answer, dir' => answer = readEntry (dir file) ∧ dir' = dir
  | .inl (.secureWrite file contents _), answer, dir' =>
    answer = Except.ok () ∧ dir' = dir.install file contents
  | .inl .now, t, dir' => client.formatRfc3339 t ≠ none ∧ dir' = dir
  | _, _, dir' => dir' = dir

/-- The same for the calls of a pass alone. -/
def steadySync (client : Client) : Environment syncSignature StateDir :=
  fun dir op answer dir' => steady client dir (.inl op) answer dir'

/-- What a daemon that starts over these files recovers. -/
def runtimeGeneration (dir : StateDir) : Except Error UInt64 :=
  runtimeGenerationOf (readEntry (dir .generation))

theorem runtimeGeneration_of_read {dir : StateDir} {g : Option UInt64}
    (h : dir.readGeneration = .ok g) : runtimeGeneration dir = .ok (g.getD 0) := by
  rw [StateDir.readGeneration] at h
  rw [runtimeGeneration, runtimeGenerationOf, h]
  rfl

section Passes

variable (s : CaSyncService) {w w' : StateDir} {trace : List (SyncEvent StateDir)}

theorem steady_respects : Respects (steadySync s.client) id := by
  intro w op answer w' h
  cases op with
  | read file => exact h
  | secureWrite file contents mode => exact Or.inl h.2
  | now => exact h.2
  | _ => exact h

theorem steady_clean {α : Type} {p : Program syncSignature α} {result : Option α}
    (h : Exec (steadySync s.client) p w trace result w') : Clean s trace where
  writes := fun _ _ _ _ _ he => (h.event_env _ he).1
  clock := fun _ _ _ he => (h.event_env _ he).1

/-- The pass was not confirmed, and its outcome tells the generation that was recorded before. -/
structure Kept (w : StateDir) (trace : List (SyncEvent StateDir)) (r : Except Error SyncOutcome)
    (w' : StateDir) : Prop where
  unconfirmed : ∀ contents, ¬ Confirmed trace contents
  file : w' .generation = w .generation
  reports : ∀ outcome, r = .ok outcome → runtimeGeneration w = .ok (reportedGeneration outcome)

/-- The pass applied the bundle, and its outcome and the file tell the bundle's generation. -/
structure Advanced (trace : List (SyncEvent StateDir)) (r : Except Error SyncOutcome)
    (w' : StateDir) (bundle : CaBundle) : Prop where
  applied : Applied s trace bundle
  reports : ∃ outcome, r = .ok outcome ∧ reportedGeneration outcome = bundle.generation
  stored : runtimeGeneration w' = .ok bundle.generation

theorem quiet_file {result : Option (Except Error SyncOutcome)}
    (h : Exec (steadySync s.client) s.synchronize.run w trace result w')
    (hquiet : Quiet trace) : w' .generation = w .generation :=
  file_unwritten (steady_respects s) h .generation fun e he contents mode =>
    hquiet.unrecorded e he .generation contents mode (Or.inl rfl)

/-- A pass that finished keeps the generation or advances it, and reports which it is. -/
theorem pass_generation {r : Except Error SyncOutcome}
    (h : Exec (steadySync s.client) s.synchronize.run w trace (some r) w') :
    Kept w trace r w' ∨ ∃ bundle, Advanced s trace r w' bundle := by
  have hclean := steady_clean s h
  cases r with
  | error e =>
    have hquiet := error_quiet s (steady_respects s) h hclean
    exact Or.inl ⟨hquiet.unconfirmed, quiet_file s h hquiet, fun _ hok => by cases hok⟩
  | ok outcome =>
    obtain ⟨head, rest, v, persisted, response, decision, rfl, hdecides, hsettle, hreports⟩ :=
      ok_settles s (steady_respects s) h
    have hread := runtimeGeneration_of_read (load_eq_ok.mp hdecides.load).1
    cases decision with
    | apply bundle =>
      obtain ⟨acknowledged, rfl⟩ := hreports
      obtain ⟨stored, happlied, hgeneration, _, hfiles⟩ := updated_stored s (steady_respects s) h
      refine Or.inr ⟨stored, happlied, ⟨_, rfl, hgeneration.symm⟩, ?_⟩
      exact runtimeGeneration_of_read (readGeneration_recordLine (hfiles .generation (Or.inl rfl)))
    | notModified =>
      obtain rfl := hreports
      have hops := hsettle.event_calls (calls_settle_notModified s persisted)
      have hquiet := quiet_of_ops (quiet_append hdecides.ops fun e he => stamp_quiet (hops e he))
      exact Or.inl ⟨hquiet.unconfirmed, quiet_file s h hquiet, fun _ hok => by
        obtain rfl := Except.ok.inj hok
        exact hread⟩
    | unchanged bundle =>
      obtain rfl := hreports
      have hops := hsettle.event_calls (calls_settle_unchanged s persisted bundle)
      have hquiet :=
        quiet_of_ops (quiet_append hdecides.ops fun e he => pinning_quiet s (hops e he))
      refine Or.inl ⟨hquiet.unconfirmed, quiet_file s h hquiet, fun _ hok => ?_⟩
      obtain rfl := Except.ok.inj hok
      obtain ⟨_, hgeneration, _⟩ := hdecides.decided
      rw [hgeneration] at hread
      exact hread

end Passes

variable (d : Daemon)

/-- No apply was confirmed. -/
def Unconfirmed (trace : List (DaemonEvent StateDir)) : Prop :=
  ∀ v v' contents, (applyEvent v v' contents (.ok .applied)).inl ∉ trace

theorem Unconfirmed.append {first second : List (DaemonEvent StateDir)}
    (hfirst : Unconfirmed first) (hsecond : Unconfirmed second) :
    Unconfirmed (first ++ second) := by
  intro v v' contents hmem
  rcases List.mem_append.mp hmem with hmem | hmem
  · exact hfirst v v' contents hmem
  · exact hsecond v v' contents hmem

/-- The generation that the helper confirmed last, or the one that was recovered at the start. -/
inductive LastConfirmed (start : StateDir) : List (DaemonEvent StateDir) → UInt64 → Prop
  | recovered {trace : List (DaemonEvent StateDir)} {g : UInt64} (hnone : Unconfirmed trace)
      (hstart : runtimeGeneration start = .ok g) : LastConfirmed start trace g
  | confirmed {earlier later : List (DaemonEvent StateDir)} {pass : List (SyncEvent StateDir)}
      {v v' : StateDir} {result : Option (Except Error SyncOutcome)} {bundle : CaBundle}
      (hpass : Exec (steadySync d.sync.client) d.sync.synchronize.run v pass result v')
      (happlied : Applied d.sync pass bundle) (hlater : Unconfirmed later) :
      LastConfirmed start (earlier ++ (pass.map Event.inl ++ later)) bundle.generation

theorem LastConfirmed.append {start : StateDir} {trace more : List (DaemonEvent StateDir)}
    {g : UInt64} (h : LastConfirmed d start trace g) (hmore : Unconfirmed more) :
    LastConfirmed d start (trace ++ more) g := by
  cases h with
  | recovered hnone hstart => exact LastConfirmed.recovered (hnone.append hmore) hstart
  | confirmed hpass happlied hlater =>
    rw [List.append_assoc, List.append_assoc]
    exact LastConfirmed.confirmed hpass happlied (hlater.append hmore)

/-- Status and file hold the same generation, and it is the last one confirmed. -/
structure InStep (start dir : StateDir) (history : List (DaemonEvent StateDir))
    (status : RuntimeStatus) : Prop where
  stored : runtimeGeneration dir = .ok status.currentGeneration
  last : LastConfirmed d start history status.currentGeneration

/-- Every heartbeat of the trace, which goes on from the history, carries the generation that a
daemon would recover then, which is the last one confirmed. -/
def HeartbeatsReport (start : StateDir) (history trace : List (DaemonEvent StateDir)) : Prop :=
  ∀ first e rest request, trace = first ++ e :: rest → e.op = .inr (.heartbeatPost request) →
    ∃ heartbeat, request.body = heartbeatBody heartbeat ∧
      runtimeGeneration e.before = .ok heartbeat.currentGeneration ∧
      LastConfirmed d start (history ++ first) heartbeat.currentGeneration

theorem HeartbeatsReport.append {start : StateDir}
    {history first second : List (DaemonEvent StateDir)}
    (hfirst : HeartbeatsReport d start history first)
    (hsecond : HeartbeatsReport d start (history ++ first) second) :
    HeartbeatsReport d start history (first ++ second) := by
  intro before e rest request heq hop
  rcases split_append heq.symm with ⟨mid, rfl, rfl⟩ | ⟨mid, rfl, rfl⟩
  · exact hfirst before e mid request rfl hop
  · rw [← List.append_assoc]
    exact hsecond mid e rest request rfl hop

/-- A call that changes no file, asks no helper, and reports nothing but this generation. -/
def IsCalm (g : UInt64) : daemonSignature.Op → Prop
  | .inl .now => True
  | .inl .randomBytes => True
  | .inl _ => False
  | .inr (.heartbeatPost request) =>
    ∃ heartbeat, request.body = heartbeatBody heartbeat ∧ heartbeat.currentGeneration = g
  | .inr _ => True

theorem calls_loadStatus (g : UInt64) : loadStatus.run.Calls (IsCalm g) :=
  calls_bind (calls_perform trivial) fun _ => trivial

theorem calls_saveStatus (g : UInt64) (status : RuntimeStatus) :
    (saveStatus status).run.Calls (IsCalm g) :=
  calls_bind (calls_perform trivial) fun _ => trivial

theorem calls_persistStatus (g : UInt64) (status : RuntimeStatus) :
    (Daemon.persistStatus status).run.Calls (IsCalm g) :=
  calls_bind (calls_attempt (calls_saveStatus g status)) fun _ => trivial

theorem calls_clockNow (g : UInt64) : (syncing clockNow).run.Calls (IsCalm g) := by
  have hnow : clockNow.run.Calls fun op : SyncOp => op = .now := calls_perform rfl
  refine calls_inl hnow ?_
  rintro op rfl
  trivial

theorem calls_generateNonce (g : UInt64) : (syncing generateNonce).run.Calls (IsCalm g) := by
  have hrandom : generateNonce.run.Calls fun op : SyncOp => op = .randomBytes :=
    calls_bind (calls_perform rfl) fun _ => trivial
  refine calls_inl hrandom ?_
  rintro op rfl
  trivial

theorem calls_sendHeartbeat (request : HeartbeatRequest) :
    (d.heartbeat.sendHeartbeat request).run.Calls (IsCalm request.currentGeneration) := by
  simp only [HeartbeatClient.sendHeartbeat, HeartbeatClient.signHeartbeat, bind_assoc, pure_bind]
  refine calls_bind (calls_clockNow _) fun now => calls_bind (calls_generateNonce _) fun nonce => ?_
  refine calls_bind trivial fun signed => calls_bind ?_ fun response => trivial
  exact calls_bind (calls_perform ⟨request, rfl, rfl⟩) fun answer => trivial

theorem calls_recordHeartbeat (status : RuntimeStatus) :
    (d.recordHeartbeat status).run.Calls (IsCalm status.currentGeneration) :=
  calls_bind (calls_clockNow _) fun now =>
    calls_bind (calls_attempt (calls_sendHeartbeat d (d.heartbeatRequest status now))) fun _ =>
      calls_bind (calls_persistStatus _ _) fun _ => trivial

section Executions

variable {d} {start w w' : StateDir} {history trace : List (DaemonEvent StateDir)}

theorem calm_event {g : UInt64} {e : DaemonEvent StateDir} {client : Client}
    (hmove : steady client e.before e.op e.answer e.after) (hcalm : IsCalm g e.op) :
    e.after = e.before := by
  obtain ⟨v, op, answer, v'⟩ := e
  cases op with
  | inl op =>
    cases op with
    | now => exact hmove.2
    | randomBytes => exact hmove
    | _ => exact absurd hcalm not_false
  | inr op => exact hmove

theorem calm_dir {α : Type} {p : DaemonProgram α} {result : Option α} {g : UInt64} {client : Client}
    (h : Exec (steady client) p w trace result w') (hcalm : ∀ e ∈ trace, IsCalm g e.op) :
    w' = w ∧ ∀ e ∈ trace, e.before = w := by
  have hevent : ∀ e ∈ trace, e.after = e.before :=
    fun e he => calm_event (h.event_env e he) (hcalm e he)
  refine ⟨h.frame id hevent, fun e he => ?_⟩
  obtain ⟨first, rest, rfl⟩ := List.append_of_mem he
  exact h.cut_event.1.frame id fun e he => hevent e (List.mem_append_left _ he)

theorem calm_unconfirmed {g : UInt64} (hcalm : ∀ e ∈ trace, IsCalm g e.op) : Unconfirmed trace :=
  fun _ _ _ hmem => hcalm _ hmem

/-- Calm calls of a status in step report it, and leave it in step. -/
theorem calm_reports {α : Type} {p : DaemonProgram α} {result : Option α} {status : RuntimeStatus}
    (h : Exec (steady d.sync.client) p w trace result w')
    (hcalm : ∀ e ∈ trace, IsCalm status.currentGeneration e.op)
    (hstep : InStep d start w history status) :
    HeartbeatsReport d start history trace ∧ InStep d start w' (history ++ trace) status := by
  obtain ⟨rfl, hbefore⟩ := calm_dir h hcalm
  refine ⟨?_, hstep.stored, hstep.last.append d (calm_unconfirmed hcalm)⟩
  rintro first e rest request rfl hop
  have hreports := hcalm e (by simp)
  rw [hop] at hreports
  obtain ⟨heartbeat, hbody, hgeneration⟩ := hreports
  refine ⟨heartbeat, hbody, ?_, ?_⟩
  · rw [hbefore e (by simp), hgeneration]
    exact hstep.stored
  · rw [hgeneration]
    exact hstep.last.append d (calm_unconfirmed fun e he => hcalm e (List.mem_append_left _ he))

theorem exec_syncing {α : Type} {x : SyncAction α} {client : Client}
    {result : Option (Except Error α)}
    (h : Exec (steady client) (syncing x).run w trace result w') :
    ∃ inner : List (SyncEvent StateDir), trace = inner.map Event.inl ∧
      Exec (steadySync client) x.run w inner result w' := exec_inl h

theorem clockNow_error {client : Client} {e : Error}
    (h : Exec (steady client) (syncing clockNow).run w trace (some (.error e)) w') : False := by
  obtain ⟨_, _, hclock⟩ := exec_syncing h
  exact perform_error hclock

theorem persistStatus_error {client : Client} {status : RuntimeStatus} {e : Error}
    (h : Exec (steady client) (Daemon.persistStatus status).run w trace (some (.error e)) w') :
    False := by
  rcases exec_action_bind_error h with h | ⟨_, _, _, _, _, _, h⟩
  · exact attempt_error h
  · exact pure_error h

/-- A heartbeat always comes back with the generation it reported. -/
theorem recordHeartbeat_result {client : Client} {status : RuntimeStatus}
    {r : Except Error RuntimeStatus}
    (h : Exec (steady client) (d.recordHeartbeat status).run w trace (some r) w') :
    ∃ next, r = .ok next ∧ next.currentGeneration = status.currentGeneration := by
  cases r with
  | error e =>
    exfalso
    rcases exec_action_bind_error h with h | ⟨_, _, _, _, _, _, h⟩
    · exact clockNow_error h
    rcases exec_action_bind_error h with h | ⟨_, _, _, _, _, _, h⟩
    · exact attempt_error h
    rcases exec_action_bind_error h with h | ⟨_, _, _, _, _, _, h⟩
    · exact persistStatus_error h
    · exact pure_error h
  | ok next =>
    obtain ⟨_, _, _, _, _, _, h⟩ := exec_action_bind_ok h
    obtain ⟨_, _, _, _, _, _, h⟩ := exec_action_bind_ok h
    obtain ⟨_, _, _, _, _, _, h⟩ := exec_action_bind_ok h
    obtain ⟨_, _, rfl⟩ := pure_ok h
    exact ⟨_, rfl, rfl⟩

/-- What a part of a run that starts in step does: its heartbeats report, and if it finishes it
comes back in step. -/
def KeepsStep (d : Daemon) (start : StateDir) (history trace : List (DaemonEvent StateDir))
    (result : Option (Except Error RuntimeStatus)) (w' : StateDir) : Prop :=
  HeartbeatsReport d start history trace ∧
    ∀ r, result = some r → ∃ next, r = .ok next ∧ InStep d start w' (history ++ trace) next

theorem recordHeartbeat_keeps {status : RuntimeStatus}
    {result : Option (Except Error RuntimeStatus)}
    (hstep : InStep d start w history status)
    (h : Exec (steady d.sync.client) (d.recordHeartbeat status).run w trace result w') :
    KeepsStep d start history trace result w' := by
  obtain ⟨hreports, hstep'⟩ :=
    calm_reports h (h.event_calls (calls_recordHeartbeat d status)) hstep
  refine ⟨hreports, ?_⟩
  rintro r rfl
  obtain ⟨next, rfl, hgeneration⟩ := recordHeartbeat_result h
  refine ⟨next, rfl, ?_, ?_⟩
  · rw [hgeneration]
    exact hstep'.stored
  · rw [hgeneration]
    exact hstep'.last

theorem synced_silent {inner : List (SyncEvent StateDir)} :
    HeartbeatsReport d start history (inner.map Event.inl) := by
  intro first e rest request heq hop
  have hmem : e ∈ inner.map Event.inl := by
    rw [heq]
    exact List.mem_append_right _ (List.mem_cons_self ..)
  obtain ⟨e, _, rfl⟩ := List.mem_map.mp hmem
  cases hop

/-- Whatever a pass comes to, the status that records it is in step with the files. -/
theorem afterSync_inStep {status : RuntimeStatus} {inner : List (SyncEvent StateDir)}
    {r : Except Error SyncOutcome} (hstep : InStep d start w history status)
    (h : Exec (steadySync d.sync.client) d.sync.synchronize.run w inner (some r) w') (now : Time) :
    InStep d start w' (history ++ inner.map Event.inl) (status.afterSync now r) := by
  rcases pass_generation d.sync h with hkept | ⟨bundle, hadvanced⟩
  · have hgeneration : (status.afterSync now r).currentGeneration = status.currentGeneration := by
      cases r with
      | error e => rfl
      | ok outcome => exact Except.ok.inj ((hkept.reports outcome rfl).symm.trans hstep.stored)
    have hquiet : Unconfirmed (inner.map Event.inl) := by
      intro v v' contents hmem
      obtain ⟨e, he, heq⟩ := List.mem_map.mp hmem
      obtain rfl := Event.inl_injective heq
      exact hkept.unconfirmed contents ⟨v, v', he⟩
    constructor
    · rw [hgeneration, runtimeGeneration, hkept.file]
      exact hstep.stored
    · rw [hgeneration]
      exact hstep.last.append d hquiet
  · obtain ⟨outcome, rfl, hreports⟩ := hadvanced.reports
    have hgeneration : (status.afterSync now (.ok outcome)).currentGeneration =
        bundle.generation := hreports
    constructor
    · rw [hgeneration]
      exact hadvanced.stored
    · rw [hgeneration, ← List.append_nil (inner.map Event.inl)]
      exact LastConfirmed.confirmed h hadvanced.applied (by simp [Unconfirmed])

theorem calls_afterPass {g : UInt64} {r : Except Error SyncOutcome} (status : RuntimeStatus) :
    (do
      let now ← syncing clockNow
      Daemon.persistStatus (status.afterSync now r)
      pure (status.afterSync now r) : DaemonAction RuntimeStatus).run.Calls (IsCalm g) :=
  calls_bind (calls_clockNow g) fun _ => calls_bind (calls_persistStatus g _) fun _ => trivial

/-- What is recorded after a pass does not depend on the clock as far as the generation goes. -/
theorem afterPass_result {client : Client} {status : RuntimeStatus} {r : Except Error SyncOutcome}
    {recorded : Except Error RuntimeStatus}
    (h : Exec (steady client) (do
      let now ← syncing clockNow
      Daemon.persistStatus (status.afterSync now r)
      pure (status.afterSync now r) : DaemonAction RuntimeStatus).run w trace (some recorded) w') :
    ∃ now, recorded = .ok (status.afterSync now r) := by
  cases recorded with
  | error e =>
    exfalso
    rcases exec_action_bind_error h with h | ⟨_, _, _, _, _, _, h⟩
    · exact clockNow_error h
    rcases exec_action_bind_error h with h | ⟨_, _, _, _, _, _, h⟩
    · exact persistStatus_error h
    · exact pure_error h
  | ok next =>
    obtain ⟨now, _, _, _, _, _, h⟩ := exec_action_bind_ok h
    obtain ⟨_, _, _, _, _, _, h⟩ := exec_action_bind_ok h
    obtain ⟨_, _, rfl⟩ := pure_ok h
    exact ⟨now, rfl⟩

theorem recordSync_keeps {status : RuntimeStatus} {result : Option (Except Error RuntimeStatus)}
    (hstep : InStep d start w history status)
    (h : Exec (steady d.sync.client) (d.recordSync status).run w trace result w') :
    KeepsStep d start history trace result w' := by
  rcases exec_action_bind h with
    ⟨rfl, hpass⟩ | ⟨e, _, hpass⟩ | ⟨r, first, second, w₁, rfl, hpass, hrest⟩
  · rcases exec_attempt hpass with ⟨_, hpass⟩ | ⟨r, _, hpass⟩
    all_goals
      obtain ⟨inner, rfl, _⟩ := exec_syncing hpass
      exact ⟨synced_silent, by simp⟩
  · exact (attempt_error hpass).elim
  rcases exec_attempt hpass with ⟨hnone, _⟩ | ⟨r', hresult, hfinished⟩
  · cases hnone
  obtain rfl : r' = r := by
    rcases hresult with hnone | hsome
    · cases hnone
    · exact (Except.ok.inj (Option.some.inj hsome)).symm
  obtain ⟨inner, rfl, hsync⟩ := exec_syncing hfinished
  have hsynced := afterSync_inStep hstep hsync 0
  obtain ⟨hreports, hstep'⟩ :=
    calm_reports hrest (hrest.event_calls (calls_afterPass status)) hsynced
  refine ⟨HeartbeatsReport.append d synced_silent hreports, ?_⟩
  rintro recorded rfl
  obtain ⟨now, rfl⟩ := afterPass_result hrest
  have hgeneration : (status.afterSync now r').currentGeneration =
      (status.afterSync 0 r').currentGeneration := by
    cases r' <;> rfl
  rw [List.append_assoc] at hstep'
  exact ⟨_, rfl, by rw [hgeneration]; exact hstep'.stored, by rw [hgeneration]; exact hstep'.last⟩

theorem act_keeps {status : RuntimeStatus} {action : PollAction}
    {result : Option (Except Error RuntimeStatus)} (hstep : InStep d start w history status)
    (h : Exec (steady d.sync.client) (d.act status action).run w trace result w') :
    KeepsStep d start history trace result w' := by
  cases action with
  | heartbeat => exact recordHeartbeat_keeps hstep h
  | bundleSync => exact recordSync_keeps hstep h

/-- However the actions follow each other, the daemon stays in step. -/
theorem poll_keeps {actions : List PollAction} {status : RuntimeStatus}
    {result : Option (Except Error RuntimeStatus)} (hstep : InStep d start w history status)
    (h : Exec (steady d.sync.client) (d.poll actions status).run w trace result w') :
    KeepsStep d start history trace result w' := by
  induction actions generalizing w history status trace with
  | nil =>
    obtain ⟨rfl, rfl, hresult⟩ := exec_pure h
    refine ⟨fun first e rest request heq => by simp at heq, fun r hr => ?_⟩
    rcases hresult with rfl | rfl
    · cases hr
    · obtain rfl := Option.some.inj hr
      exact ⟨status, rfl, by rwa [List.append_nil]⟩
  | cons action actions ih =>
    rcases exec_action_bind h with
      ⟨rfl, hact⟩ | ⟨e, _, hact⟩ | ⟨next, first, second, w₁, rfl, hact, hrest⟩
    · exact ⟨(act_keeps hstep hact).1, by simp⟩
    · obtain ⟨_, herror, _⟩ := (act_keeps hstep hact).2 _ rfl
      cases herror
    · obtain ⟨hreports, hresult⟩ := act_keeps hstep hact
      obtain ⟨next', hok, hstep'⟩ := hresult _ rfl
      obtain rfl := Except.ok.inj hok
      obtain ⟨hreports', hresult'⟩ := ih hstep' hrest
      refine ⟨hreports.append d hreports', fun r hr => ?_⟩
      rw [← List.append_assoc]
      exact hresult' r hr

/-- The heartbeats report, and a result agrees with what a restarted daemon would recover. -/
def Agrees (d : Daemon) (start : StateDir) (history trace : List (DaemonEvent StateDir))
    (result : Option (Except Error RuntimeStatus)) (w' : StateDir) : Prop :=
  HeartbeatsReport d start history trace ∧
    ∀ status, result = some (.ok status) → runtimeGeneration w' = .ok status.currentGeneration

theorem agrees_calm_bind {α : Type} {x : DaemonAction α} {f : α → DaemonAction RuntimeStatus}
    {status : RuntimeStatus} {result : Option (Except Error RuntimeStatus)}
    (hx : x.run.Calls (IsCalm status.currentGeneration)) (hstep : InStep d start w history status)
    (hf : ∀ a w₁ first second, InStep d start w₁ (history ++ first) status →
      Exec (steady d.sync.client) (f a).run w₁ second result w' →
      Agrees d start (history ++ first) second result w')
    (h : Exec (steady d.sync.client) (x >>= f).run w trace result w') :
    Agrees d start history trace result w' := by
  rcases exec_action_bind h with
    ⟨rfl, hfirst⟩ | ⟨e, hresult, hfirst⟩ | ⟨a, first, second, w₁, rfl, hfirst, hrest⟩
  · exact ⟨(calm_reports hfirst (hfirst.event_calls hx) hstep).1, by simp⟩
  · refine ⟨(calm_reports hfirst (hfirst.event_calls hx) hstep).1, fun status hok => ?_⟩
    rcases hresult with rfl | rfl <;> cases hok
  · obtain ⟨hreports, hstep'⟩ := calm_reports hfirst (hfirst.event_calls hx) hstep
    obtain ⟨hreports', hresult⟩ := hf a w₁ first second hstep' hrest
    exact ⟨hreports.append d hreports', hresult⟩

theorem agrees_stopped {status : RuntimeStatus} {result : Option (Except Error RuntimeStatus)}
    (hstep : InStep d start w history status)
    (h : Exec (steady d.sync.client) (do
      saveStatus { status with cleanShutdown := true }
      pure { status with cleanShutdown := true } : DaemonAction RuntimeStatus).run
      w trace result w') : Agrees d start history trace result w' := by
  refine agrees_calm_bind (calls_saveStatus _ _) hstep ?_ h
  intro _ w₁ first second hstep' hdone
  obtain ⟨rfl, rfl, hresult⟩ := exec_pure hdone
  refine ⟨fun first e rest request heq => by simp at heq, fun stopped hok => ?_⟩
  rcases hresult with rfl | rfl
  · cases hok
  · obtain rfl := Except.ok.inj (Option.some.inj hok)
    exact hstep'.stored

theorem agrees_poll {actions : List PollAction} {status : RuntimeStatus}
    {result : Option (Except Error RuntimeStatus)} (hstep : InStep d start w history status)
    (h : Exec (steady d.sync.client) (do
      let status ← d.poll actions status
      saveStatus { status with cleanShutdown := true }
      pure { status with cleanShutdown := true } : DaemonAction RuntimeStatus).run
      w trace result w') : Agrees d start history trace result w' := by
  rcases exec_action_bind h with
    ⟨rfl, hpoll⟩ | ⟨e, _, hpoll⟩ | ⟨next, first, second, w₁, rfl, hpoll, hrest⟩
  · exact ⟨(poll_keeps hstep hpoll).1, by simp⟩
  · obtain ⟨_, herror, _⟩ := (poll_keeps hstep hpoll).2 _ rfl
    cases herror
  · obtain ⟨hreports, hresult⟩ := poll_keeps hstep hpoll
    obtain ⟨next', hok, hstep'⟩ := hresult _ rfl
    obtain rfl := Except.ok.inj hok
    obtain ⟨hreports', hstored⟩ := agrees_stopped hstep' hrest
    exact ⟨hreports.append d hreports', hstored⟩

theorem recovered_inStep {g : UInt64} (h : Exec (steady d.sync.client)
    (syncing readRuntimeGeneration).run start trace (some (.ok g)) w) :
    InStep d start w trace (d.startingStatus g) := by
  obtain ⟨inner, rfl, hread⟩ := exec_syncing h
  rcases exec_ask _ _ hread with ⟨_, hnone, _⟩ | ⟨answer, rfl, ⟨rfl, rfl⟩, hresult⟩
  · cases hnone
  have hstart : runtimeGeneration w = .ok g := by
    rcases hresult with hnone | hsome
    · cases hnone
    · exact (Option.some.inj hsome).symm
  refine ⟨hstart, LastConfirmed.recovered ?_ hstart⟩
  intro v v' contents hmem
  cases List.mem_singleton.mp hmem

end Executions

/-- In every run of the daemon, whatever order its cadences come in, each heartbeat carries the
generation that a daemon started at that moment would recover, which is the last one that the
helper confirmed; and so does the status in memory at the end. -/
theorem heartbeats_report_applied {actions : List PollAction} {start w' : StateDir}
    {trace : List (DaemonEvent StateDir)} {result : Option (Except Error RuntimeStatus)}
    (h : Exec (steady d.sync.client) (d.run actions).run start trace result w') :
    HeartbeatsReport d start [] trace ∧
      ∀ status, result = some (.ok status) →
        runtimeGeneration w' = .ok status.currentGeneration := by
  rcases exec_action_bind h with
    ⟨rfl, hread⟩ | ⟨e, hresult, hread⟩ | ⟨g, first, second, w₁, rfl, hread, hrest⟩
  · obtain ⟨inner, rfl, _⟩ := exec_syncing hread
    exact ⟨synced_silent, by simp⟩
  · obtain ⟨inner, rfl, _⟩ := exec_syncing hread
    refine ⟨synced_silent, fun status hok => ?_⟩
    rcases hresult with rfl | rfl <;> cases hok
  have hstep := recovered_inStep hread
  obtain ⟨hreports, hstored⟩ : Agrees d start ([] ++ first) second result w' := by
    refine agrees_calm_bind (calls_loadStatus _) hstep ?_ hrest
    intro _ w₂ _ _ hstep' hrest'
    refine agrees_calm_bind (calls_saveStatus _ _) hstep' ?_ hrest'
    exact fun _ w₃ _ _ hstep'' hpoll => agrees_poll hstep'' hpoll
  obtain ⟨inner, rfl, _⟩ := exec_syncing hread
  exact ⟨HeartbeatsReport.append d synced_silent hreports, hstored⟩

/-! A daemon whose heartbeats go nowhere, while its pass applies the golden bundle. -/

def sampleBeat (generation : UInt64) : HeartbeatRequest where
  agentVersion := text "0.1.0"
  hostname := text "host-1"
  os := text "linux"
  kernel := text "6.1.0"
  ip := text "192.0.2.7"
  currentGeneration := generation
  uptimeSeconds := 0

def beatDigest (body : Bytes) : Nat :=
  if body = heartbeatBody (sampleBeat 0) then
    0x386bdd45a26f3ca4930c9e127204c0b67d3fc9a4c0684dc6a7bde36a7289e88a
  else 0xec51b05e473227d0a2f085b41039e5fa3851f6a50d0b568d7a0d0ce64f25475e

def beatMessage (generation : UInt64) : Bytes := encodeUtf8 (canonicalString (text "machine-01")
  1768435200 (hexEncode (List.replicate 16 0)) (text "POST") heartbeatPath
  (hexEncode (bigEndian 32 (beatDigest (heartbeatBody (sampleBeat generation)))).toList))

def beatSignature (message : Bytes) : Nat :=
  if message = beatMessage 0 then
    0x4ac6249d0e52c598abc8c7ef4436212d8052a8581ed2c6d1460c4eb9d357b443 * 2 ^ 256 +
      0x5f361b51b28fa31d5542c238409d2e38884ec964802d5f20bedb73d3b5588202
  else
    0xf444dd7cfa6c57ac1b645d732dca4529a543bf34fae05983be684667614bfd0c * 2 ^ 256 +
      0xa55ab9829d2349c700e348b2b4dbaa31fe864c9a950acc011c66ab14fc135f0a

/-- The keypair of the sample service, for the two heartbeats of the run. -/
def beatClient : Client :=
  { sampleClient with
    sha256 := fun body => bigEndian 32 (beatDigest body)
    sign := fun message => some (bigEndian 64 (beatSignature message)) }

def sampleDaemon : Daemon where
  agentVersion := text "0.1.0"
  host := ⟨text "host-1", text "linux", text "6.1.0", text "aarch64", text "192.0.2.7"⟩
  startup := sampleNow
  heartbeat := ⟨beatClient, text "machine-01", text "https://mayfly.example", fun _ => none⟩
  sync := sampleService none

def sampleAnswer (dir : StateDir) :
    (op : daemonSignature.Op) → Option (daemonSignature.Answer op × StateDir)
  | .inl op => goldenScript.answer dir op
  | .inr (.heartbeatPost _) => some (.error .heartbeatTransport, dir)
  | .inr .loadStatus => some (.ok none, dir)
  | .inr (.saveStatus _) => some (.ok (), dir)

def samplePolled : List (DaemonEvent StateDir) × Option (Except Error RuntimeStatus) × StateDir :=
  play sampleAnswer (sampleDaemon.run [.heartbeat, .bundleSync, .heartbeat]).run StateDir.empty

theorem samplePolled_steady :
    Exec (steady sampleDaemon.sync.client)
      (sampleDaemon.run [.heartbeat, .bundleSync, .heartbeat]).run StateDir.empty
      samplePolled.1 samplePolled.2.1 samplePolled.2.2 := by
  refine exec_play (fun dir op answer dir' hanswer => ?_) _ _
  cases op with
  | inl op =>
    cases op <;> obtain ⟨rfl, rfl⟩ := Prod.mk.inj (Option.some.inj hanswer)
    case read => exact ⟨rfl, rfl⟩
    case secureWrite => exact ⟨rfl, rfl⟩
    case now => exact ⟨by simp [sampleDaemon, (sampleService_capable none).stamp], rfl⟩
    all_goals rfl
  | inr op => cases op <;> exact (Prod.mk.inj (Option.some.inj hanswer)).2.symm

def isHeartbeat : daemonSignature.Op → Bool
  | .inl _ => false
  | .inr (.heartbeatPost _) => true
  | .inr .loadStatus => false
  | .inr (.saveStatus _) => false

/-- The heartbeat after the pass carries generation 42. -/
theorem heartbeats_report_applied_golden :
    ∃ request heartbeat, (∃ e ∈ samplePolled.1, e.op = .inr (.heartbeatPost request)) ∧
      request.body = heartbeatBody heartbeat ∧ heartbeat.currentGeneration = 42 := by
  have hplayed : samplePolled.1.any (fun e => isHeartbeat e.op &&
      decide (runtimeGeneration e.before = .ok 42)) = true := by
    decide +kernel
  obtain ⟨e, he, hholds⟩ := List.any_eq_true.mp hplayed
  obtain ⟨hpost, hbeat⟩ := (Bool.and_eq_true ..).mp hholds
  obtain ⟨first, rest, htrace⟩ := List.append_of_mem he
  cases hop : e.op with
  | inl op => simp [hop, isHeartbeat] at hpost
  | inr op =>
    cases op with
    | heartbeatPost request =>
      simp only [decide_eq_true_eq] at hbeat
      obtain ⟨heartbeat, hbody, hgeneration, _⟩ :=
        (heartbeats_report_applied _ samplePolled_steady).1 first e rest request htrace hop
      refine ⟨request, heartbeat, ⟨e, he, hop⟩, hbody, ?_⟩
      exact Except.ok.inj (hgeneration.symm.trans hbeat)
    | loadStatus => simp [hop, isHeartbeat] at hpost
    | saveStatus status => simp [hop, isHeartbeat] at hpost

end MayflyAgent.PollingRuns
