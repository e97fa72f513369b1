import MayflyAgent.Lifecycles

/-!
What the flag `clean_shutdown` of the runtime status says. It is set in the last save of a process,
right behind the check at which the poll loop saw the request to stop, and a start takes it back
before it contacts anybody. So a status with the flag tells of the last process that did anything.
-/
namespace MayflyAgent.CleanStops

open RustText Programs Contracts Budgets Errors StateFiles CaSync Heartbeats Scheduling Daemons
open Lifecycles
open Enrollment (EnrollAction MachineIdentity readKeypair ensureEnrolled)

variable {b : Build} {α : Type}

/-- A heartbeat, or work of the CA-sync service. -/
def isBusy : agentSignature.Op → Bool
  | .inl (.inl op) => isWork op
  | .inl (.inr (.heartbeatPost _)) => true
  | _ => false

/-- Nothing like that was done, and the status stayed as it was. -/
def Idle (trace : List (AgentEvent Computer)) : Prop :=
  ∀ e ∈ trace, isBusy e.op = false ∧ e.after.status = e.before.status

/-- The event is a check that sees the request to stop. -/
def seesRequest : AgentEvent Computer → Bool
  | ⟨_, .inr (.inl .shutdownRequested), (seen : Bool), _⟩ => seen
  | _ => false

def Saves (status : RuntimeStatus) (op : agentSignature.Op) : Prop :=
  op = .inl (.inr (.saveStatus status))

/-- The last thing of the trace is the save of this status, behind a check that saw the request. -/
def StoppedWith (status : RuntimeStatus) (trace : List (AgentEvent Computer)) : Prop :=
  ∃ front check save, trace = front ++ [check, save] ∧ seesRequest check = true ∧
    Saves status save.op

/-- A status with the flag is the one of the start, and nothing was done since then, or the process
stopped with it. -/
def Evident (start : Computer) (past : List (AgentEvent Computer)) (w : Computer) : Prop :=
  ∀ status, w.status = some status → status.cleanShutdown = true →
    start.status = some status ∧ Idle past ∨ StoppedWith status past

abbrev Evidence (start : Computer) (past : List (AgentEvent Computer)) (e : AgentEvent Computer) :
    Prop := Evident start (past ++ [e]) e.after

/-- Nothing was done yet. -/
def Before (start : Computer) (past : List (AgentEvent Computer)) (w : Computer) : Prop :=
  Idle past ∧ w.status = start.status

/-- The status on the disk is without the flag. -/
def Serving (_ : List (AgentEvent Computer)) (w : Computer) : Prop :=
  ∃ status, w.status = some status ∧ status.cleanShutdown = false

/-- The last thing was a check that saw the request. -/
def Seen (past : List (AgentEvent Computer)) : Prop :=
  ∃ front check, past = front ++ [check] ∧ seesRequest check = true

def SeenServing (past : List (AgentEvent Computer)) (w : Computer) : Prop :=
  Seen past ∧ Serving past w

def Anything (_ : Ending) : Condition agentSignature Computer := fun _ _ => True

variable {start : Computer}

theorem evident_of_serving {past : List (AgentEvent Computer)} {w : Computer}
    (h : Serving past w) : Evident start past w := by
  obtain ⟨status, hstatus, hunclean⟩ := h
  intro status' hstatus' hclean
  obtain rfl : status = status' := Option.some.inj (hstatus.symm.trans hstatus')
  exact absurd hclean (by simp [hunclean])

/-- A call that does nothing and saves nothing. -/
def IsIdle : agentSignature.Op → Prop
  | .inl (.inl op) => isWork op = false
  | .inl (.inr .loadStatus) => True
  | .inl (.inr _) => False
  | .inr _ => True

theorem idle_status {w w' : Computer} {op : agentSignature.Op} {answer : agentSignature.Answer op}
    (hop : IsIdle op) (h : living w op answer w') :
    isBusy op = false ∧ w'.status = w.status := by
  obtain ⟨_, h⟩ := h
  rcases op with (op | op) | (op | op)
  · exact ⟨hop, h.2.2⟩
  · cases op with
    | loadStatus => exact ⟨rfl, h.2.2⟩
    | heartbeatPost request => exact hop.elim
    | saveStatus status => exact hop.elim
  · exact ⟨rfl, h.2.1⟩
  · exact ⟨rfl, h.2⟩

theorem idle_append {past : List (AgentEvent Computer)} {e : AgentEvent Computer} (h : Idle past)
    (hbusy : isBusy e.op = false) (hstatus : e.after.status = e.before.status) :
    Idle (past ++ [e]) := by
  intro e' he'
  rcases List.mem_append.mp he' with he' | he'
  · exact h e' he'
  · rw [List.mem_singleton.mp he']
    exact ⟨hbusy, hstatus⟩

theorem before_keeps {x : AgentAction α} (hx : x.run.Calls IsIdle) :
    Meets living (Evidence start) (Before start) x.run
      (Returns Anything fun _ => Before start) := by
  refine (meets_keeps hx fun past w op answer w' hop hbefore henv => ?_).post ?_
  · obtain ⟨hbusy, hstatus⟩ := idle_status hop henv
    have hidle := idle_append (e := ⟨w, op, answer, w'⟩) hbefore.1 hbusy hstatus
    have hsame : w'.status = start.status := hstatus.trans hbefore.2
    exact ⟨fun status h _ => Or.inl ⟨hsame.symm.trans h, hidle⟩, hidle, hsame⟩
  · intro r past w h
    cases r with
    | ok a => exact h
    | error e => trivial

theorem idle_enrollAction (x : EnrollAction α) : (enrollAction x).run.Calls IsIdle := by
  have hcalls := calls_inl (T := hostSignature) (Program.calls_true x.run) (Q := fun _ => True)
    fun _ h => h
  exact (calls_inr hcalls fun _ h => h).bind fun _ => trivial

theorem idle_askChecked (op : HostOp) (check : op.Answer → Except Error α) :
    (askChecked op check).run.Calls IsIdle := calls_bind (calls_perform trivial) fun _ => trivial

theorem idle_enrolledStart (state : AppState) (fuel : Nat) :
    (enrolledStart b state fuel).run.Calls IsIdle := by
  refine calls_bind (calls_bind (idle_askChecked _ _) fun _ => calls_bind (idle_askChecked _ _)
    fun _ => idle_askChecked _ _) fun _ => ?_
  refine calls_bind (calls_bind (idle_askChecked _ _) fun _ => idle_askChecked _ _) fun _ => ?_
  refine calls_bind (calls_perform trivial) fun host => ?_
  exact calls_bind (idle_enrollAction _) fun _ => trivial

abbrev Unclean (status : RuntimeStatus) : Prop := status.cleanShutdown = false

/-- A save is one without the flag. -/
def SavesUnclean : agentSignature.Op → Prop
  | .inl (.inr (.saveStatus status)) => Unclean status
  | _ => True

theorem serving_keeps {p : AgentProgram α} (hp : p.Calls SavesUnclean) :
    Meets living (Evidence start) Serving p fun _ => Serving := by
  refine meets_keeps hp fun past w op answer w' hop hserving henv => ?_
  have hafter : Serving (past ++ [⟨w, op, answer, w'⟩]) w' := by
    obtain ⟨status, hstatus, hunclean⟩ := hserving
    obtain ⟨_, henv⟩ := henv
    rcases op with (op | op) | (op | op)
    · exact ⟨status, henv.2.2.trans hstatus, hunclean⟩
    · cases op with
      | heartbeatPost request => exact ⟨status, henv.2.trans hstatus, hunclean⟩
      | loadStatus => exact ⟨status, henv.2.2.trans hstatus, hunclean⟩
      | saveStatus saved =>
        rcases henv.2 with hsaved | ⟨_, hkept⟩
        · exact ⟨saved, hsaved, hop⟩
        · exact ⟨status, hkept.trans hstatus, hunclean⟩
    · exact ⟨status, henv.2.1.trans hstatus, hunclean⟩
    · exact ⟨status, henv.2.trans hstatus, hunclean⟩
  exact ⟨evident_of_serving hafter, hafter⟩

section Serve

variable {d : Heartbeats.Daemon} {status : RuntimeStatus}

theorem calls_syncing (x : SyncAction α) :
    (syncing x).run.Calls fun op => SavesUnclean (.inl op) :=
  calls_inl (Program.calls_true x.run) fun _ _ => trivial

theorem calls_persistStatus (h : Unclean status) :
    (Daemon.persistStatus status).run.Calls fun op => SavesUnclean (.inl op) :=
  calls_bind (calls_attempt (calls_bind (calls_perform h) fun _ => trivial)) fun _ => trivial

theorem calls_sendHeartbeat (request : HeartbeatRequest) :
    (d.heartbeat.sendHeartbeat request).run.Calls fun op => SavesUnclean (.inl op) := by
  simp only [HeartbeatClient.sendHeartbeat, HeartbeatClient.signHeartbeat, bind_assoc, pure_bind]
  refine calls_bind (calls_syncing _) fun now => calls_bind (calls_syncing _) fun nonce => ?_
  refine calls_bind trivial fun signed => calls_bind ?_ fun response => trivial
  exact calls_bind (calls_perform trivial) fun answer => trivial

/-- The actions of the poll loop record what they did without the flag. -/
theorem act_unclean (h : Unclean status) (action : PollAction) :
    (d.act status action).run.Calls (fun op => SavesUnclean (.inl op)) ∧
      YieldsOk Unclean (d.act status action) := by
  cases action with
  | heartbeat =>
    constructor
    · refine calls_bind (calls_syncing _) fun now => calls_bind (calls_attempt
        (calls_sendHeartbeat _)) fun _ => calls_bind (calls_persistStatus h) fun _ => trivial
    · refine (yieldsOk_trivial _).andThen fun now _ => (yieldsOk_trivial _).andThen fun _ _ => ?_
      exact (yieldsOk_trivial _).andThen fun _ _ => yieldsOk_pure h
  | bundleSync =>
    have hrecorded : ∀ now result, Unclean (status.afterSync now result) := by
      intro now result
      cases result <;> exact h
    constructor
    · refine calls_bind (calls_attempt (calls_syncing _)) fun result =>
        calls_bind (calls_syncing _) fun now => ?_
      exact calls_bind (calls_persistStatus (hrecorded _ _)) fun _ => trivial
    · refine (yieldsOk_trivial _).andThen fun result _ => ?_
      refine (yieldsOk_trivial _).andThen fun now _ => ?_
      exact (yieldsOk_trivial _).andThen fun _ _ => yieldsOk_pure (hrecorded _ _)

theorem yields_inl {S T : Signature} {P : α → Prop} {p : Program S α} (h : Yields P p) :
    Yields P (p.inl : Program (S.sum T) α) := by
  induction p with
  | done a => exact h
  | call op next ih => exact fun answer => ih answer (h answer)
  | running => trivial

theorem polling_unclean (h : Unclean status) (op : LoopOp) :
    (polling d status op).Calls SavesUnclean ∧
      Yields (fun r => Unclean r.2) (polling d status op) := by
  cases op with
  | act action =>
    obtain ⟨hcalls, hyields⟩ := act_unclean (d := d) h action
    constructor
    · refine (calls_inl hcalls fun _ h => h).bind fun result => ?_
      cases result <;> trivial
    · refine (yields_inl hyields).bind fun result hresult => ?_
      cases result with
      | ok next => exact hresult next rfl
      | error e => exact h
  | now => exact ⟨⟨trivial, fun _ => trivial⟩, fun _ => h⟩
  | nextDelay action interval => exact ⟨⟨trivial, fun _ => trivial⟩, fun _ => h⟩
  | isRequested => exact ⟨⟨trivial, fun _ => trivial⟩, fun _ => h⟩
  | threadSleep chunk => exact ⟨⟨trivial, fun _ => trivial⟩, fun _ => h⟩
  | _ => exact ⟨trivial, trivial⟩

/-- Nothing goes by how a part of the loop fails. -/
def Whatever {ε : Type} (_ : ε) : Condition agentSignature Computer := fun _ _ => True

theorem loop_keeps (x : LoopAction Unit α) (h : Unclean status) :
    Meets living (Evidence start) Serving (handle (polling d) x.run status)
      (Leaves Whatever fun _ next past w => Unclean next ∧ Serving past w) := by
  obtain ⟨hcalls, hyields⟩ := calls_handle (h := polling d) (fun _ op h _ => polling_unclean h op)
    (Program.calls_true x.run) h
  intro past w trace result w' hserving hexec
  have hkeeps : Meets living (Evidence start) Serving _ fun _ => Serving := serving_keeps hcalls
  obtain ⟨hevents, hend⟩ := hkeeps past w trace result w' hserving hexec
  refine ⟨hevents, ?_⟩
  rintro ⟨r, next⟩ rfl
  have hnext := exec_yields hexec hyields
  cases r with
  | ok a => exact ⟨hnext, hend _ rfl⟩
  | error panic => trivial

/-- The loop ends at a check that saw the request. -/
theorem runPolling_seen (sleeper : InterruptibleSleeper) (fuel : Nat) :
    ∀ (s : Scheduler) (cycle : UInt64) {status : RuntimeStatus}, Unclean status →
    Meets living (Evidence start) Serving
      (handle (polling d) (runPolling (T := Unit) sleeper.sleep (fun _ => notRequested) s cycle
        fuel).run status)
      (Leaves Whatever fun _ next past w => Unclean next ∧ SeenServing past w) := by
  induction fuel with
  | zero => exact fun _ _ _ _ => meets_running
  | succ fuel ih =>
    intro s cycle status h
    refine meets_handle_bind (Q := fun go next past w => Unclean next ∧ Serving past w ∧
      (go = false → Seen past)) ?_ fun go next => ?_
    · refine meets_call
        (M := fun (seen : Bool) past w => Serving past w ∧ (seen = true → Seen past))
        (fun past w (seen : Bool) w' hserving henv => ?_) fun (seen : Bool) => ?_
      · have hkeeps : Meets living (Evidence start) Serving
            (Program.perform (S := agentSignature) (.inr (.inl .shutdownRequested)))
            fun _ => Serving := serving_keeps ⟨trivial, fun _ => trivial⟩
        obtain ⟨hevents, _⟩ := hkeeps past w _ none w' hserving
          (Exec.step henv (Exec.killed _ _))
        have hsame : w'.status = w.status := henv.2.2.1
        refine ⟨hevents.1, ?_, fun hseen => ⟨past, _, rfl, hseen⟩⟩
        rwa [Serving, hsame]
      · exact meets_done fun past w hM => ⟨h, hM.1, fun hgo => hM.2 (by simpa using hgo)⟩
    · refine meets_of_fact (fun _ _ hQ => hQ.1) fun hnext => ?_
      cases go with
      | false => exact meets_done fun _ _ hQ => ⟨hQ.1, hQ.2.2 rfl, hQ.2.1⟩
      | true =>
        refine meets_handle_bind ((loop_keeps (pollCycle sleeper.sleep s) hnext).pre
          fun _ _ hQ => hQ.2.1) fun s next => ?_
        refine meets_of_fact (fun _ _ hQ => hQ.1) fun hnext => ?_
        exact (ih s (cycle + 1) hnext).pre fun _ _ hQ => hQ.2

/-- What the handled part leaves, the action of the process returns. -/
theorem loopAction_meets {P : Condition agentSignature Computer}
    {Q : α → RuntimeStatus → Condition agentSignature Computer} {x : LoopAction Unit α}
    (h : Meets living (Evidence start) P (handle (polling d) x.run status) (Leaves Whatever Q)) :
    Meets living (Evidence start) P (loopAction d status x).run
      (Returns Anything fun r => Q r.1 r.2) := by
  refine h.bind fun r => ?_
  obtain ⟨r, next⟩ := r
  cases r with
  | ok a => exact meets_done fun _ _ hQ => hQ
  | error panic => exact meets_done fun _ _ _ => trivial

/-- An action of the heartbeats and passes, among the calls of the process. -/
theorem daemonAction_meets {x : DaemonAction RuntimeStatus}
    (hcalls : x.run.Calls fun op => SavesUnclean (.inl op)) (hyields : YieldsOk Unclean x) :
    Meets living (Evidence start) Serving (daemonAction x).run
      (Returns Anything fun next past w => Unclean next ∧ Serving past w) := by
  have hinner : (x.run.inl : AgentProgram (Except Error RuntimeStatus)).Calls SavesUnclean :=
    calls_inl hcalls fun _ h => h
  have hkeeps : Meets living (Evidence start) Serving
      (x.run.inl : AgentProgram (Except Error RuntimeStatus))
      fun r past w => (∀ next, r = .ok next → Unclean next) ∧ Serving past w := by
    intro past w trace result w' hserving hexec
    obtain ⟨hevents, hend⟩ := serving_keeps hinner past w trace result w' hserving hexec
    refine ⟨hevents, ?_⟩
    rintro r rfl
    exact ⟨exec_yields hexec (yields_inl hyields), hend r rfl⟩
  refine hkeeps.bind fun r => ?_
  cases r with
  | ok next => exact meets_done fun _ _ h => ⟨h.1 next rfl, h.2⟩
  | error e => exact meets_done fun _ _ _ => trivial

theorem saveStatus_meets {P Q : Condition agentSignature Computer} (status : RuntimeStatus)
    (h : ∀ past w answer w', P past w → living w (.inl (.inr (.saveStatus status))) answer w' →
      Evident start (past ++ [⟨w, .inl (.inr (.saveStatus status)), answer, w'⟩]) w' ∧
      (answer = .ok () → Q (past ++ [⟨w, .inl (.inr (.saveStatus status)), answer, w'⟩]) w')) :
    Meets living (Evidence start) P (daemonAction (saveStatus status)).run
      (Returns Anything fun _ => Q) := by
  refine meets_call (M := fun (answer : Except Error Unit) past w => answer = .ok () → Q past w)
    h fun (answer : Except Error Unit) => ?_
  cases answer with
  | ok _ => exact meets_done fun _ _ hM => hM rfl
  | error e => exact meets_done fun _ _ _ => trivial

theorem startingSave_meets (h : Unclean status) :
    Meets living (Evidence start) (Before start) (daemonAction (saveStatus status)).run
      (Returns Anything fun _ => Serving) := by
  refine saveStatus_meets status fun past w answer w' hbefore henv => ?_
  obtain ⟨_, _, hsaved | ⟨⟨e, herror⟩, hkept⟩⟩ := henv
  · exact ⟨evident_of_serving ⟨status, hsaved, h⟩, fun _ => ⟨status, hsaved, h⟩⟩
  · refine ⟨fun saved hsaved _ => Or.inl ⟨?_, idle_append hbefore.1 rfl hkept⟩, fun hok => ?_⟩
    · rw [← hbefore.2, ← hkept, hsaved]
    · cases herror.symm.trans hok

/-- The process stopped, and its last status is on the disk. -/
def Stopped (past : List (AgentEvent Computer)) (w : Computer) : Prop :=
  ∃ status, w.status = some status ∧ status.cleanShutdown = true ∧ StoppedWith status past

theorem lastSave_meets :
    Meets living (Evidence start) SeenServing
      (daemonAction (saveStatus { status with cleanShutdown := true })).run
      (Returns Anything fun _ => Stopped) := by
  refine saveStatus_meets _ fun past w answer w' hseen henv => ?_
  obtain ⟨⟨front, check, rfl, hcheck⟩, unclean, hstatus, hunclean⟩ := hseen
  have hstopped := fun answer => (⟨front, check, ⟨w, .inl (.inr (.saveStatus
    { status with cleanShutdown := true })), answer, w'⟩, by simp, hcheck, rfl⟩ :
    StoppedWith { status with cleanShutdown := true } ((front ++ [check]) ++
      [⟨w, .inl (.inr (.saveStatus { status with cleanShutdown := true })), answer, w'⟩]))
  obtain ⟨_, _, hsaved | ⟨⟨e, herror⟩, hkept⟩⟩ := henv
  · refine ⟨fun saved h _ => ?_, fun _ => ⟨_, hsaved, rfl, hstopped answer⟩⟩
    obtain rfl := Option.some.inj (hsaved.symm.trans h)
    exact Or.inr (hstopped answer)
  · refine ⟨fun saved h hclean => ?_, fun hok => ?_⟩
    · obtain rfl := Option.some.inj (hstatus.symm.trans (hkept.symm.trans h))
      exact absurd hclean (by simp [hunclean])
    · cases herror.symm.trans hok

theorem serve_meets (generation : UInt64) (scheduler : Scheduler) (fuel : Nat) :
    Meets living (Evidence start) (Before start) (serve d generation scheduler fuel).run
      (Returns Anything fun _ => Stopped) := by
  have hstarting : Unclean (d.startingStatus generation) := rfl
  refine Meets.andThen (startingSave_meets hstarting) fun _ => ?_
  obtain ⟨hcalls, hyields⟩ := act_unclean (d := d) hstarting .heartbeat
  refine Meets.andThen (daemonAction_meets hcalls hyields) fun status => ?_
  refine meets_of_fact (fun _ _ h => h.1) fun hstatus => ?_
  obtain ⟨hcalls, hyields⟩ := act_unclean (d := d) hstatus .bundleSync
  refine Meets.andThen ((daemonAction_meets hcalls hyields).pre fun _ _ h => h.2) fun status => ?_
  refine meets_of_fact (fun _ _ h => h.1) fun hstatus => ?_
  refine Meets.andThen ((loopAction_meets (runPolling_seen InterruptibleSleeper.new fuel scheduler 0
    hstatus)).pre fun _ _ h => h.2) fun r => ?_
  exact lastSave_meets.pre fun _ _ h => h.2

end Serve

theorem idle_of_reading (op : agentSignature.Op) (h : IsReading op) : IsIdle op := by
  rcases op with (op | op) | (op | op)
  · exact h
  · cases op <;> exact h
  · trivial
  · trivial

/-- The process saw the request before it did anything, or it stopped. -/
def EndedWell (start : Computer) (past : List (AgentEvent Computer)) (w : Computer) : Prop :=
  Seen past ∧ Before start past w ∨ Stopped past w

theorem isRequested_meets : Meets living (Evidence start) (Before start) isRequested.run
    (Returns Anything fun (seen : Bool) past w =>
      Before start past w ∧ (seen = true → Seen past)) := by
  refine meets_call (M := fun (seen : Bool) past w =>
    Before start past w ∧ (seen = true → Seen past))
    (fun past w (seen : Bool) w' hbefore henv => ?_)
    fun seen => meets_done fun _ _ h => h
  have hsame : w'.status = start.status := henv.2.2.1.trans hbefore.2
  have hidle := idle_append (e := ⟨w, .inr (.inl .shutdownRequested), seen, w'⟩) hbefore.1 rfl
    henv.2.2.1
  exact ⟨fun status h _ => Or.inl ⟨hsame.symm.trans h, hidle⟩, ⟨hidle, hsame⟩,
    fun hseen => ⟨past, _, rfl, hseen⟩⟩

theorem run_meets (state : AppState) (enrollFuel pollFuel : Nat) :
    Meets living (Evidence start) (Before start) (run b state enrollFuel pollFuel).run
      (Returns Anything fun _ => EndedWell start) := by
  refine Meets.andThen (before_keeps (idle_enrolledStart state enrollFuel)) fun started => ?_
  obtain ⟨host, identity⟩ := started
  refine Meets.andThen isRequested_meets fun (seen : Bool) => ?_
  cases seen with
  | true => exact meets_pure fun _ _ h => Or.inl ⟨h.2 rfl, h.1⟩
  | false =>
    refine Meets.andThen ((before_keeps ((calls_recover host identity).mono idle_of_reading)).pre
      fun _ _ h => h.1) fun recovered => ?_
    obtain ⟨d, generation, scheduler⟩ := recovered
    refine (serve_meets generation scheduler pollFuel).post fun r past w h => ?_
    cases r with
    | ok _ => exact Or.inr h
    | error e => trivial

/-- An execution ends where its last event leads. -/
theorem exec_nil {p : AgentProgram α} {w w' : Computer} {result : Option α}
    (h : Exec living p w [] result w') : w' = w := by
  cases h with
  | finished => rfl
  | killed => rfl

/-- What a process leaves, wherever it is killed. -/
theorem process_evident {x : Process} (h : x.Happens b) : Evident x.before x.trace x.after := by
  obtain ⟨enrollFuel, pollFuel, hexec⟩ := h
  have hstart : Before x.before [] x.before := ⟨List.forall_mem_nil _, rfl⟩
  obtain ⟨hevents, _⟩ := run_meets x.state enrollFuel pollFuel [] _ _ _ _ hstart hexec
  rcases List.eq_nil_or_concat x.trace with htrace | ⟨first, e, htrace⟩
  · rw [htrace] at hexec ⊢
    rw [exec_nil hexec]
    exact fun status hstatus _ => Or.inl ⟨hstatus, List.forall_mem_nil _⟩
  · rw [htrace, List.concat_eq_append] at hexec hevents ⊢
    obtain ⟨_, q, hq⟩ := hexec.cut_event
    rw [exec_nil hq]
    exact hevents.middle

/-- A status with the flag tells of the last process that did anything: with its last call it saved
this status, right behind a check that saw the request to stop, and no process since then sent a
heartbeat, fetched, applied or acknowledged anything, or changed the status. -/
theorem flag_evidence {w w' : Computer} {processes : List Process}
    (h : Lifetime b w processes w') {status : RuntimeStatus} (hstatus : w'.status = some status)
    (hclean : status.cleanShutdown = true) :
    w.status = some status ∧ (∀ x ∈ processes, Idle x.trace) ∨
      ∃ first x later, processes = first ++ x :: later ∧ StoppedWith status x.trace ∧
        ∀ y ∈ later, Idle y.trace := by
  induction h with
  | nil w => exact Or.inl ⟨hstatus, List.forall_mem_nil _⟩
  | @cons w w' x processes hbefore hprocess _ ih =>
    rcases ih hstatus with ⟨hafter, hidle⟩ | ⟨first, y, later, rfl, hstopped, hlater⟩
    · rcases process_evident hprocess status hafter hclean with ⟨hsame, hx⟩ | hstopped
      · rw [hbefore] at hsame
        exact Or.inl ⟨hsame, List.forall_mem_cons.mpr ⟨hx, hidle⟩⟩
      · exact Or.inr ⟨[], x, processes, rfl, hstopped, hidle⟩
    · exact Or.inr ⟨x :: first, y, later, rfl, hstopped, hlater⟩

theorem flag_evidence_sample : ∃ status, sampleProcess.after.status = some status ∧
    status.cleanShutdown = true ∧
    (resting.status = some status ∧ (∀ x ∈ [sampleProcess], Idle x.trace) ∨
      ∃ first x later, [sampleProcess] = first ++ x :: later ∧ StoppedWith status x.trace ∧
        ∀ y ∈ later, Idle y.trace) := by
  obtain ⟨status, hstatus, hclean⟩ := Option.map_eq_some_iff.mp sampleServed_well.2
  exact ⟨status, hstatus, hclean, flag_evidence sample_life hstatus hclean⟩

/-- A process that ends well saw the request to stop with its last check: behind the enrollment, and
then it did nothing, or in the poll loop, and then its last status is left with the flag. -/
theorem success_stopped {state : AppState} {enrollFuel pollFuel : Nat} {w w' : Computer}
    {trace : List (AgentEvent Computer)}
    (h : Exec living (run b state enrollFuel pollFuel).run w trace (some (.ok ())) w') :
    (Seen trace ∧ Idle trace ∧ w'.status = w.status) ∨
      ∃ status, w'.status = some status ∧ status.cleanShutdown = true ∧
        StoppedWith status trace := by
  have hstart : Before w [] w := ⟨List.forall_mem_nil _, rfl⟩
  exact (run_meets state enrollFuel pollFuel [] _ _ _ _ hstart h).2 _ rfl

theorem success_stopped_sample : sampleProcess.result = some (.ok ()) ∧
    ((Seen sampleProcess.trace ∧ Idle sampleProcess.trace ∧
        sampleProcess.after.status = resting.status) ∨
      ∃ status, sampleProcess.after.status = some status ∧ status.cleanShutdown = true ∧
        StoppedWith status sampleProcess.trace) := by
  have hexec := sampleProcess_exec
  rw [sampleServed_well.1] at hexec
  exact ⟨sampleProcess_well, success_stopped hexec⟩

end MayflyAgent.CleanStops
