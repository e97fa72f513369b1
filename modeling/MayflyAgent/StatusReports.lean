import MayflyAgent.CleanStops
import MayflyAgent.LifeInvariants

/-!
What the daemon tells of its generation, over the whole life of a machine. Writes may fail and
processes may be killed between any two steps, so a heartbeat and the runtime status may lag behind
the generation file. They never run ahead of it.
-/
namespace MayflyAgent.StatusReports

open RustText Programs Contracts Budgets Checks Errors Bundles StateFiles CaSync Heartbeats
open Scheduling Daemons Lifecycles LifeInvariants
open SyncPasses SyncCourses SyncResults
open PollingRuns (runtimeGeneration runtimeGeneration_of_read)
open CleanStops (IsIdle idle_enrolledStart idle_of_reading)
open SyncRuns (hostile hostile_respects)
open Enrollment (EnrollAction MachineIdentity readKeypair ensureEnrolled)

variable {b : Build} {α : Type}

/-- A pass that succeeds reports the generation that the file holds then. -/
theorem pass_reported {s : CaSyncService} {w w' : StateDir} {trace : List (SyncEvent StateDir)}
    {outcome : SyncOutcome} (h : Exec hostile s.synchronize.run w trace (some (.ok outcome)) w') :
    runtimeGeneration w' = .ok (reportedGeneration outcome) := by
  obtain ⟨head, rest, v, persisted, response, decision, rfl, hdecides, hsettle, hreports⟩ :=
    ok_settles s hostile_respects h
  have hread := runtimeGeneration_of_read (load_eq_ok.mp hdecides.load).1
  have hkept : Quiet (head ++ rest) → runtimeGeneration w' = .ok (persisted.generation.getD 0) := by
    intro hquiet
    have hfile : w' .generation = w .generation :=
      file_unwritten hostile_respects h .generation fun e he contents mode =>
        hquiet.unrecorded e he .generation contents mode (Or.inl rfl)
    rw [← hread, runtimeGeneration, hfile]
    rfl
  cases decision with
  | apply bundle =>
    obtain ⟨acknowledged, rfl⟩ := hreports
    obtain ⟨stored, _, hgeneration, _, hfiles⟩ := updated_stored s hostile_respects h
    show runtimeGeneration w' = .ok bundle.generation
    rw [← hgeneration]
    exact runtimeGeneration_of_read (readGeneration_recordLine (hfiles .generation (Or.inl rfl)))
  | notModified =>
    obtain rfl := hreports
    have hops := hsettle.event_calls (calls_settle_notModified s persisted)
    exact hkept (quiet_of_ops (quiet_append hdecides.ops fun e he => stamp_quiet (hops e he)))
  | unchanged bundle =>
    obtain rfl := hreports
    have hops := hsettle.event_calls (calls_settle_unchanged s persisted bundle)
    obtain ⟨_, hgeneration, _⟩ := hdecides.decided
    rw [hkept (quiet_of_ops (quiet_append hdecides.ops fun e he => pinning_quiet s (hops e he))),
      hgeneration]
    rfl

/-- The file holds the generation or a later one. Without a file there is only the generation 0. -/
def Backed (g : UInt64) (d : StateDir) : Prop :=
  g = 0 ∨ ∃ g', d.readGeneration = .ok (some g') ∧ g ≤ g'

theorem Backed.later {g : UInt64} {d d' : StateDir} (h : Backed g d) (hle : GenerationLe d d') :
    Backed g d' := by
  rcases h with rfl | ⟨g₁, hread, hg₁⟩
  · exact Or.inl rfl
  · obtain ⟨g₂, hread', hg₂⟩ := hle g₁ hread
    exact Or.inr ⟨g₂, hread', UInt64.le_trans hg₁ hg₂⟩

theorem backed_of_runtime {g : UInt64} {d : StateDir} (h : runtimeGeneration d = .ok g) :
    Backed g d := by
  have hread : (d.readGeneration >>= fun found => pure (found.getD 0)) = Except.ok g := h
  cases hfound : d.readGeneration with
  | error e =>
    rw [hfound] at hread
    cases hread
  | ok found =>
    rw [hfound] at hread
    cases found with
    | none => exact Or.inl (Except.ok.inj hread).symm
    | some g' =>
      obtain rfl : g' = g := Except.ok.inj hread
      exact Or.inr ⟨g', hfound, UInt64.le_refl g'⟩

/-- The status on the disk tells of a generation that was recorded. -/
def Truthful (w : Computer) : Prop :=
  ∀ status, w.status = some status → Backed status.currentGeneration w.machine.dir

/-- The request is a heartbeat that tells of a generation that was recorded. -/
def HeartbeatBacked (request : HttpRequest) (w : Computer) : Prop :=
  ∃ heartbeat, request.body = heartbeatBody heartbeat ∧
    Backed heartbeat.currentGeneration w.machine.dir

/-- The status is truthful behind the event, and the event is no heartbeat that runs ahead. -/
def Truly (e : AgentEvent Computer) : Prop :=
  Truthful e.after ∧ ∀ request, e.op = .inl (.inr (.heartbeatPost request)) →
    HeartbeatBacked request e.before

/-- The generation that the process reports is recorded, and the status is truthful. -/
def Held (g : UInt64) (w : Computer) : Prop := Truthful w ∧ Backed g w.machine.dir

/-- Where the generation file never goes down. -/
def advancing : Environment agentSignature Computer := fun w op answer w' =>
  living w op answer w' ∧ GenerationKept w w'

/-- The call reports this generation, or none. -/
def Tells (g : UInt64) : agentSignature.Op → Prop
  | .inl (.inr (.heartbeatPost request)) =>
    ∃ heartbeat, request.body = heartbeatBody heartbeat ∧ heartbeat.currentGeneration = g
  | .inl (.inr (.saveStatus status)) => status.currentGeneration = g
  | _ => True

theorem living_status {w w' : Computer} {op : agentSignature.Op} {answer : agentSignature.Answer op}
    (h : living w op answer w') : w'.status = w.status ∨
      ∃ status, op = .inl (.inr (.saveStatus status)) ∧ w'.status = some status := by
  obtain ⟨_, h⟩ := h
  rcases op with (op | op) | (op | op)
  · exact Or.inl h.2.2
  · cases op with
    | heartbeatPost request => exact Or.inl h.2
    | loadStatus => exact Or.inl h.2.2
    | saveStatus status =>
      rcases h.2 with hsaved | ⟨_, hkept⟩
      · exact Or.inr ⟨status, rfl, hsaved⟩
      · exact Or.inl hkept
  · exact Or.inl h.2.1
  · exact Or.inl h.2

/-- What a call that reports a recorded generation leaves. -/
theorem truly_of_tells {g : UInt64} {w w' : Computer} {op : agentSignature.Op}
    {answer : agentSignature.Answer op} (hop : Tells g op) (hheld : Held g w)
    (h : advancing w op answer w') : Truly ⟨w, op, answer, w'⟩ ∧ Held g w' := by
  obtain ⟨htruthful, hbacked⟩ := hheld
  obtain ⟨hliving, hkept⟩ := h
  have hafter : Truthful w' := by
    intro status hstatus
    rcases living_status hliving with hsame | ⟨saved, rfl, hsaved⟩
    · exact (htruthful status (hsame.symm.trans hstatus)).later hkept
    · obtain rfl := Option.some.inj (hsaved.symm.trans hstatus)
      rw [show saved.currentGeneration = g from hop]
      exact hbacked.later hkept
  refine ⟨⟨hafter, fun request hrequest => ?_⟩, hafter, hbacked.later hkept⟩
  obtain rfl : op = .inl (.inr (.heartbeatPost request)) := hrequest
  obtain ⟨heartbeat, hbody, rfl⟩ := hop
  exact ⟨heartbeat, hbody, hbacked⟩

abbrev Reporting {α : Type} (P : Computer → Prop) (p : AgentProgram α) (Q : α → Computer → Prop) :
    Prop :=
  Meets advancing (fun _ => Truly) (fun _ => P) p fun a _ => Q a

theorem reporting_of_calls {g : UInt64} {p : AgentProgram α} (h : p.Calls (Tells g)) :
    Reporting (Held g) p fun _ => Held g :=
  meets_keeps h fun _ _ _ _ _ hop hheld henv => truly_of_tells hop hheld henv

theorem tells_of_idle {g : UInt64} (op : agentSignature.Op) (h : IsIdle op) : Tells g op := by
  rcases op with (op | op) | op
  · trivial
  · cases op <;> first | exact h.elim | trivial
  · trivial

abbrev Reports (P : Computer → Prop) (x : AgentAction α) (Q : α → Computer → Prop) : Prop :=
  Meets advancing (fun _ => Truly) (fun _ => P) x.run (Returns (fun _ _ _ => True) fun a _ => Q a)

theorem reports_of_calls {g : UInt64} {x : AgentAction α} (h : x.run.Calls (Tells g)) :
    Reports (Held g) x fun _ => Held g := by
  refine (reporting_of_calls h).post fun r past w hheld => ?_
  cases r with
  | ok a => exact hheld
  | error e => trivial

section Actions

variable {d : Heartbeats.Daemon} {status : RuntimeStatus}

/-- The same contracts, for calls of the heartbeats and passes alone. -/
abbrev Relating (P : Computer → Prop) (p : DaemonProgram α) (Q : α → Computer → Prop) : Prop :=
  Meets (fun w op answer w' => advancing w (.inl op) answer w') (fun _ e => Truly e.inl)
    (fun _ => P) p fun a _ => Q a

theorem relating_of_calls {g : UInt64} {p : DaemonProgram α}
    (h : p.Calls fun op => Tells g (.inl op)) : Relating (Held g) p fun _ => Held g :=
  meets_keeps h fun _ _ _ _ _ hop hheld henv => truly_of_tells hop hheld henv

/-- The next status tells of a recorded generation, or the status at hand goes on to. -/
def Recorded (status : RuntimeStatus) : Except Error RuntimeStatus → Computer → Prop
  | .ok next => Held next.currentGeneration
  | .error _ => Held status.currentGeneration

theorem calls_syncing {g : UInt64} (x : SyncAction α) :
    (syncing x).run.Calls fun op => Tells g (.inl op) :=
  calls_inl (Program.calls_true x.run) fun _ _ => trivial

theorem calls_persistStatus {g : UInt64} (h : status.currentGeneration = g) :
    (Daemon.persistStatus status).run.Calls fun op => Tells g (.inl op) :=
  calls_bind (calls_attempt (calls_bind (calls_perform h) fun _ => trivial)) fun _ => trivial

theorem calls_sendHeartbeat (request : HeartbeatRequest) :
    (d.heartbeat.sendHeartbeat request).run.Calls
      fun op => Tells request.currentGeneration (.inl op) := by
  simp only [HeartbeatClient.sendHeartbeat, HeartbeatClient.signHeartbeat, bind_assoc, pure_bind]
  refine calls_bind (calls_syncing _) fun now => calls_bind (calls_syncing _) fun nonce => ?_
  refine calls_bind trivial fun signed => calls_bind ?_ fun response => trivial
  exact calls_bind (calls_perform ⟨request, rfl, rfl⟩) fun answer => trivial

theorem recordHeartbeat_relates :
    Relating (Held status.currentGeneration) (d.recordHeartbeat status).run (Recorded status) := by
  have hcalls : (d.recordHeartbeat status).run.Calls
      fun op => Tells status.currentGeneration (.inl op) :=
    calls_bind (calls_syncing _) fun now =>
      calls_bind (calls_attempt (calls_sendHeartbeat (d.heartbeatRequest status now))) fun _ =>
        calls_bind (calls_persistStatus rfl) fun _ => trivial
  have hyields : YieldsOk (fun next => next.currentGeneration = status.currentGeneration)
      (d.recordHeartbeat status) := by
    refine (yieldsOk_trivial _).andThen fun now _ => (yieldsOk_trivial _).andThen fun _ _ => ?_
    exact (yieldsOk_trivial _).andThen fun _ _ => yieldsOk_pure rfl
  intro past w trace result w' hheld hexec
  obtain ⟨hevents, hend⟩ := relating_of_calls hcalls past w trace result w' hheld hexec
  refine ⟨hevents, ?_⟩
  rintro r rfl
  have hafter := hend r rfl
  cases r with
  | ok next => rwa [Recorded, exec_yields hexec hyields next rfl]
  | error e => exact hafter

/-- A pass leaves the status behind it backed, however it ends. -/
theorem synchronize_relates : Relating (Held status.currentGeneration)
    (syncing d.sync.synchronize).run fun result w => ∀ now,
      Held (status.afterSync now result).currentGeneration w := by
  intro past w trace result w' hheld hexec
  obtain ⟨hevents, hend⟩ :=
    relating_of_calls (calls_syncing d.sync.synchronize) past w trace result w' hheld hexec
  refine ⟨hevents, ?_⟩
  rintro r rfl now
  have hafter := hend r rfl
  cases r with
  | error e => exact hafter
  | ok outcome =>
    obtain ⟨inner, rfl, hinner⟩ := exec_inl hexec
    have hpass : Exec hostile _ _ (inner.map (Event.map fun w => w.machine.dir)) _ _ :=
      hinner.map fun _ _ _ _ h => h.1.2.2.1
    exact ⟨hafter.1, backed_of_runtime (pass_reported hpass)⟩

theorem recordSync_relates :
    Relating (Held status.currentGeneration) (d.recordSync status).run (Recorded status) := by
  have hpass : Relating (Held status.currentGeneration) (syncing d.sync.synchronize).attempt.run
      fun r w => ∃ result, r = .ok result ∧ ∀ now,
        Held (status.afterSync now result).currentGeneration w :=
    Meets.bind synchronize_relates fun result => meets_done fun _ _ h => ⟨result, rfl, h⟩
  unfold Daemon.recordSync
  rw [run_bind]
  refine hpass.bind fun r => meets_exists fun result => meets_of_fact (fun _ _ h => h.1) ?_
  rintro rfl
  intro past w trace r w' hheld hexec
  have hrest : (do
      let now ← syncing clockNow
      Daemon.persistStatus (status.afterSync now result)
      pure (status.afterSync now result) : DaemonAction RuntimeStatus).run.Calls
        fun op => Tells (status.afterSync 0 result).currentGeneration (.inl op) := by
    refine calls_bind (calls_syncing _) fun now => ?_
    refine calls_bind (calls_persistStatus ?_) fun _ => trivial
    cases result <;> rfl
  obtain ⟨hevents, hend⟩ := relating_of_calls hrest past w trace r w' (hheld.2 0) hexec
  refine ⟨hevents, ?_⟩
  rintro r rfl
  have hyields : Yields (fun r => ∃ now, r = .ok (status.afterSync now result)) (do
      let now ← syncing clockNow
      Daemon.persistStatus (status.afterSync now result)
      pure (status.afterSync now result) : DaemonAction RuntimeStatus).run :=
    fun now _ => ⟨now, rfl⟩
  obtain ⟨now, rfl⟩ := exec_yields hexec hyields
  have hgeneration : (status.afterSync now result).currentGeneration =
      (status.afterSync 0 result).currentGeneration := by
    cases result <;> rfl
  rw [Recorded, hgeneration]
  exact hend _ rfl

theorem act_relates (action : PollAction) :
    Relating (Held status.currentGeneration) (d.act status action).run (Recorded status) := by
  cases action with
  | heartbeat => exact recordHeartbeat_relates
  | bundleSync => exact recordSync_relates

/-- An action among the calls of the process. -/
theorem act_reports (action : PollAction) : Reports (Held status.currentGeneration)
    (daemonAction (d.act status action)) fun next => Held next.currentGeneration := by
  refine (meets_inl (act_relates action)).bind fun r => ?_
  cases r with
  | ok next => exact meets_done fun _ _ h => h
  | error e => exact meets_done fun _ _ _ => trivial

theorem polling_reports (status : RuntimeStatus) (op : LoopOp) :
    Reporting (Held status.currentGeneration) (polling d status op)
      fun r => Held r.2.currentGeneration := by
  have hidle : ∀ {α : Type} {p : AgentProgram (α × RuntimeStatus)}, p.Calls IsIdle →
      Yields (fun r => r.2 = status) p → Reporting (Held status.currentGeneration) p
        fun r => Held r.2.currentGeneration := by
    intro α p hcalls hyields past w trace result w' hheld hexec
    obtain ⟨hevents, hend⟩ := reporting_of_calls (hcalls.mono tells_of_idle) past w trace result w'
      hheld hexec
    refine ⟨hevents, ?_⟩
    rintro r rfl
    rw [exec_yields hexec hyields]
    exact hend r rfl
  cases op with
  | act action =>
    refine (meets_inl (act_relates action)).bind fun r => ?_
    cases r with
    | ok next => exact meets_done fun _ _ h => h
    | error e => exact meets_done fun _ _ h => h
  | now => exact hidle ⟨rfl, fun _ => trivial⟩ fun _ => rfl
  | nextDelay action interval => exact hidle ⟨trivial, fun _ => trivial⟩ fun _ => rfl
  | isRequested => exact hidle ⟨trivial, fun _ => trivial⟩ fun _ => rfl
  | threadSleep chunk => exact hidle ⟨trivial, fun _ => trivial⟩ fun _ => rfl
  | _ => exact meets_running

theorem loopAction_reports (x : LoopAction Unit α) : Reports (Held status.currentGeneration)
    (loopAction d status x) fun r => Held r.2.currentGeneration := by
  refine (meets_handle (I := fun status _ => Held status.currentGeneration) polling_reports x.run
    status).bind fun r => ?_
  obtain ⟨r, next⟩ := r
  cases r with
  | ok a => exact meets_done fun _ _ h => h
  | error panic => exact meets_done fun _ _ _ => trivial

end Actions

theorem recover_reports (state : AppState) (host : HostFacts) (identity : MachineIdentity) :
    Reports (Held 0) (recover b state host identity) fun r => Held r.2.1 := by
  have hreading : ∀ {g : UInt64} {α : Type} {x : AgentAction α}, x.run.Calls IsReading →
      Reports (Held g) x fun _ => Held g :=
    fun hx => reports_of_calls (hx.mono fun op hop => tells_of_idle op (idle_of_reading op hop))
  refine Meets.andThen (hreading (calls_readKeypair _)) fun heartbeatKeypair => ?_
  refine Meets.andThen (hreading (calls_readKeypair _)) fun syncKeypair => ?_
  refine Meets.andThen (Q := fun g _ => Held g) ?_ fun generation => ?_
  · refine meets_call (M := fun answer _ w => ∀ g, runtimeGenerationOf answer = .ok g → Held g w)
      (fun past w answer w' hheld henv => ?_) fun answer => ?_
    · have htells : Tells 0 (.inl (.inl (.read .generation))) := trivial
      obtain ⟨hevent, hafter⟩ := truly_of_tells htells hheld henv
      obtain ⟨hanswer, hdir⟩ := henv.1.2.2.1
      refine ⟨hevent, fun g hg => ⟨hafter.1, backed_of_runtime ?_⟩⟩
      rwa [runtimeGeneration, hdir, ← hanswer]
    · refine meets_done fun _ _ hM => ?_
      show Returns _ _ ((runtimeGenerationOf answer).mapError Ending.failed) _ _
      cases hg : runtimeGenerationOf answer with
      | ok g => exact hM g hg
      | error e => trivial
  refine Meets.andThen (hreading ⟨trivial, fun _ => trivial⟩) fun _ => ?_
  refine Meets.andThen (hreading (calls_askChecked _ _)) fun _ => ?_
  refine Meets.andThen (hreading (calls_askChecked _ _)) fun _ => ?_
  refine Meets.andThen (hreading ⟨rfl, fun _ => trivial⟩) fun now => ?_
  exact Meets.andThen (hreading (calls_schedule now _ _ _)) fun _ => meets_pure fun _ _ h => h

theorem serve_reports (d : Heartbeats.Daemon) (generation : UInt64) (scheduler : Scheduler)
    (fuel : Nat) : Reports (Held generation) (serve d generation scheduler fuel)
      fun _ w => Truthful w := by
  have hsave : ∀ {g : UInt64} {status : RuntimeStatus}, status.currentGeneration = g →
      Reports (Held g) (daemonAction (saveStatus status)) fun _ => Held g :=
    fun hg => reports_of_calls (And.intro hg fun _ => trivial)
  refine Meets.andThen (hsave rfl) fun _ => ?_
  have hbeat : Reports (Held (d.startingStatus generation).currentGeneration)
      (daemonAction (d.act (d.startingStatus generation) .heartbeat))
      fun next => Held next.currentGeneration := act_reports .heartbeat
  refine Meets.andThen hbeat fun status => ?_
  refine Meets.andThen (act_reports .bundleSync) fun status => ?_
  refine Meets.andThen (loopAction_reports _) fun r => ?_
  obtain ⟨_, status⟩ := r
  have hstop : Reports (Held status.currentGeneration)
      (daemonAction (saveStatus { status with cleanShutdown := true })) fun _ =>
        Held status.currentGeneration := hsave rfl
  refine hstop.post fun result past w h => ?_
  cases result with
  | ok _ => exact h.1
  | error e => trivial

theorem run_reports (state : AppState) (enrollFuel pollFuel : Nat) :
    Reports (Held 0) (run b state enrollFuel pollFuel) fun _ w => Truthful w := by
  refine Meets.andThen (reports_of_calls ((idle_enrolledStart state enrollFuel).mono tells_of_idle))
    fun started => ?_
  obtain ⟨host, identity⟩ := started
  refine Meets.andThen (reports_of_calls ⟨trivial, fun _ => trivial⟩) fun (seen : Bool) => ?_
  cases seen with
  | true => exact meets_pure fun _ _ h => h.1
  | false =>
    refine Meets.andThen (recover_reports state host identity) fun recovered => ?_
    obtain ⟨d, generation, scheduler⟩ := recovered
    exact serve_reports d generation scheduler pollFuel

theorem process_reports {x : Process} (h : x.Happens b) (hstart : Truthful x.before) :
    (∀ e ∈ x.trace, Truly e) ∧ Truthful x.after := by
  obtain ⟨enrollFuel, pollFuel, hexec⟩ := id h
  have hadvancing : Exec advancing (run b x.state enrollFuel pollFuel).run x.before x.trace
      x.result x.after :=
    hexec.of_events fun e he => ⟨hexec.event_env e he, process_generation h e he⟩
  have hevents := (run_reports x.state enrollFuel pollFuel [] _ _ _ _ ⟨hstart, Or.inl rfl⟩
    hadvancing).1.forall_mem (C := Truly) fun _ _ h => h
  exact ⟨hevents, (hexec.invariant (I := Truthful) (fun e he _ => (hevents e he).1) hstart).1⟩

/-- The status never tells of a generation that the generation file does not back, and no heartbeat
of any process does, at no time of the life of a machine. -/
theorem life_reports {w w' : Computer} {processes : List Process} (h : Lifetime b w processes w')
    (hstart : Truthful w) : (∀ v ∈ computers processes ++ [w'], Truthful v) ∧
      ∀ x ∈ processes, ∀ e ∈ x.trace, ∀ request,
        e.op = .inl (.inr (.heartbeatPost request)) → HeartbeatBacked request e.before := by
  induction h with
  | nil w => simpa [computers] using hstart
  | @cons w w' x processes hbefore hprocess _ ih =>
    have hx : Truthful x.before := by
      rw [hbefore]
      exact hstart
    obtain ⟨hevents, hafter⟩ := process_reports hprocess hx
    obtain ⟨hcomputers, hheartbeats⟩ := ih hafter
    refine ⟨fun v hv => ?_, List.forall_mem_cons.mpr ⟨fun e he => (hevents e he).2, hheartbeats⟩⟩
    simp only [computers, List.flatMap_cons, List.append_assoc, List.mem_append] at hv
    rcases hv with hv | hv
    · rcases List.mem_cons.mp hv with rfl | hv
      · exact hx
      · obtain ⟨e, he, rfl⟩ := List.mem_map.mp hv
        exact (hevents e he).1
    · exact hcomputers v (List.mem_append.mpr hv)

theorem life_reports_sample : ∃ x : Process, Lifetime sampleBuild resting [x] x.after ∧
    (∃ e ∈ x.trace, e.after.machine.dir .generation =
      .regular (recordLine BundleValidation.golden.bundle .generation)) ∧
    (∀ v ∈ computers [x] ++ [x.after], Truthful v) ∧
    ∀ x' ∈ [x], ∀ e ∈ x'.trace, ∀ request, e.op = .inl (.inr (.heartbeatPost request)) →
      HeartbeatBacked request e.before := by
  obtain ⟨x, hlife, hrecorded, _⟩ := golden_life
  have hreports := life_reports hlife fun _ h => by cases h
  exact ⟨x, hlife, hrecorded, hreports⟩

end MayflyAgent.StatusReports
