import MayflyAgent.Boots
import MayflyAgent.Daemons
import MayflyAgent.PollingRuns
import MayflyAgent.Budgets

/-!
The processes of the daemon on one machine, from `Daemon::run` on. Each is started in what the
previous one left on the disk, and ends, fails, panics or is killed anywhere. What a process does to
the identity directory and to the state files is a boot: an enrollment, and then passes of one
CA-sync service. So the life of a machine is a life of boots.
-/
namespace MayflyAgent.Lifecycles

open RustText Programs Budgets Errors StateFiles CaSync Heartbeats Enrollment Boots Daemons
open SyncPasses (FileMoves)
open SyncRuns (hostile SyncPass)
open EnrollmentRuns (Machine enrolling IsQuiet enrolling_quiet)
open Scheduling (LoopOp loopSignature)
open SyncProgress (Working sampleClient sampleService sampleBody)
open EnrollmentRuns (samplePlatform sampleUrl samplePem sampleHost sampleKeypair sampleRecord
  recordJson reachable reachable_enrolling)
open BundleValidation (golden sampleNow)

/-- The disk of the machine, the runtime status on it, and the flag of the process. -/
structure Computer where
  machine : Machine
  status : Option RuntimeStatus
  requested : Bool

/-- Any server, helper, clock and random numbers. A write that fails leaves the old or the new
contents, and a flag that is set stays set. -/
def living : Environment agentSignature Computer := fun w op answer w' =>
  (w.requested = true → w'.requested = true) ∧
    match op, answer with
    | .inl (.inl op), answer => w'.machine = { w.machine with dir := w'.machine.dir } ∧
        FileMoves w.machine.dir w'.machine.dir op answer ∧ w'.status = w.status
    | .inl (.inr op), answer => w'.machine = w.machine ∧
        match op, answer with
        | .saveStatus status, (answer : Except Error Unit) => w'.status = some status ∨
            (∃ e, answer = .error e) ∧ w'.status = w.status
        | .loadStatus, (answer : Except Error (Option RuntimeStatus)) =>
          (∀ status, answer = .ok status → status = w.status) ∧ w'.status = w.status
        | .heartbeatPost _, _ => w'.status = w.status
    | .inr (.inl op), answer => enrolling w.machine op answer w'.machine ∧ w'.status = w.status ∧
        match op, answer with
        | .shutdownRequested, (seen : Bool) =>
          (w.requested = true → seen = true) ∧ (seen = true → w'.requested = true)
        | _, _ => True
    | .inr (.inr _), _ => w'.machine = w.machine ∧ w'.status = w.status

/-- A process starts with what is on the disk. -/
def Computer.restarted (w : Computer) : Computer :=
  { machine := Machine.restarted w.machine, status := w.status, requested := false }

structure Process where
  state : AppState
  before : Computer
  trace : List (AgentEvent Computer)
  result : Option (Except Ending Unit)
  after : Computer

variable {b : Build}

def Process.Happens (b : Build) (x : Process) : Prop := ∃ enrollFuel pollFuel,
  Exec living (run b x.state enrollFuel pollFuel).run x.before x.trace x.result x.after

inductive Lifetime (b : Build) : Computer → List Process → Computer → Prop
  | nil (w : Computer) : Lifetime b w [] w
  | cons {w w' : Computer} {x : Process} {processes : List Process}
      (hbefore : x.before = w.restarted) (hprocess : x.Happens b)
      (hrest : Lifetime b x.after processes w') : Lifetime b w (x :: processes) w'

/-- Everything but reading, and signing, which heartbeats do as well. -/
def isWork : SyncOp → Bool
  | .read _ | .now | .randomBytes => false
  | _ => true

def isRequesting : EnrollOp → Bool
  | .secureWrite _ _ _ | .connect | .postJson _ _ | .setLastResponse _ | .writeState _ _ _ => true
  | _ => false

/-- What a process calls by itself, next to enrollment and the passes. -/
def IsOwn : agentSignature.Op → Prop
  | .inl (.inl op) => isWork op = false
  | .inl (.inr _) => True
  | .inr (.inl op) => isRequesting op = false
  | .inr (.inr _) => True

/-- What a process only asks: it sends no heartbeat, saves no status and changes no file. -/
def IsReading : agentSignature.Op → Prop
  | .inl (.inl op) => isWork op = false
  | .inl (.inr .loadStatus) => True
  | .inl (.inr _) => False
  | .inr (.inl op) => isRequesting op = false
  | .inr (.inr _) => True

theorem own_of_reading (op : agentSignature.Op) (h : IsReading op) : IsOwn op := by
  rcases op with (op | op) | (op | op)
  · exact h
  · trivial
  · exact h
  · trivial

theorem quiet_of_not_requesting {op : EnrollOp} (h : isRequesting op = false) : IsQuiet op := by
  cases op <;> trivial

theorem own_machine {w w' : Computer} {op : agentSignature.Op} {answer : agentSignature.Answer op}
    (hop : IsOwn op) (h : living w op answer w') : w'.machine = w.machine := by
  obtain ⟨_, h⟩ := h
  cases op with
  | inl op =>
    cases op with
    | inl op =>
      obtain ⟨hmachine, hmoves, _⟩ := h
      have hdir : w'.machine.dir = w.machine.dir := by
        cases op with
        | read file => exact hmoves.2
        | now => exact hmoves
        | randomBytes => exact hmoves
        | _ => cases hop
      rw [hmachine, hdir]
    | inr op => exact h.1
  | inr op =>
    cases op with
    | inl op => exact enrolling_quiet h.1 (quiet_of_not_requesting hop)
    | inr op => exact h.1

/-- Such calls are part of no boot. -/
theorem own_trace {α : Type} {q : AgentProgram α} {w w' : Computer}
    {trace : List (AgentEvent Computer)} {result : Option α} (h : Exec living q w trace result w')
    (hq : q.Calls IsReading) : w'.machine = w.machine ∧ ∀ e ∈ trace, IsReading e.op := by
  have hreading := h.event_calls hq
  refine ⟨h.frame Computer.machine fun e he => ?_, hreading⟩
  exact own_machine (own_of_reading _ (hreading e he)) (h.event_env e he)

/-- The calls of an enrollment, as the process makes them. -/
def enrolled (inner : List (EnrollEvent Computer)) : List (AgentEvent Computer) :=
  (inner.map Event.inl).map Event.inr

/-- An enrollment of the process is one of its machine. -/
theorem exec_enrollAction {α : Type} {x : EnrollAction α} {w w' : Computer}
    {trace : List (AgentEvent Computer)} {result : Option (Except Ending α)}
    (h : Exec living (enrollAction x).run w trace result w') :
    ∃ (inner : List (EnrollEvent Computer)) (r : Option (Except Error α)),
      trace = enrolled inner ∧
      Exec enrolling x.run w.machine (inner.map (Event.map Computer.machine)) r w'.machine ∧
      ∀ a, result = some (.ok a) → r = some (.ok a) := by
  have hinner : ∀ {trace : List (AgentEvent Computer)} {r : Option (Except Error α)}
      {w' : Computer},
      Exec living (x.run.inl.inr : AgentProgram (Except Error α)) w trace r w' →
      ∃ inner : List (EnrollEvent Computer), trace = enrolled inner ∧
        Exec enrolling x.run w.machine (inner.map (Event.map Computer.machine)) r w'.machine := by
    intro trace r w' h
    obtain ⟨middle, rfl, hmiddle⟩ := exec_inr h
    obtain ⟨inner, rfl, hinner⟩ := exec_inl hmiddle
    exact ⟨inner, rfl, hinner.map (f := Computer.machine) fun _ _ _ _ h => h.2.1⟩
  rcases exec_bind h with ⟨rfl, hkill⟩ | ⟨r, first, second, w₁, rfl, hfirst, hsecond⟩
  · obtain ⟨inner, rfl, hexec⟩ := hinner hkill
    exact ⟨inner, none, rfl, hexec, fun _ h => by cases h⟩
  · obtain ⟨rfl, rfl, hresult⟩ := exec_done hsecond
    obtain ⟨inner, rfl, hexec⟩ := hinner hfirst
    rw [List.append_nil]
    refine ⟨inner, some r, rfl, hexec, fun a ha => ?_⟩
    rw [ha] at hresult
    cases r with
    | ok a' =>
      rcases hresult with hnone | hsome
      · cases hnone
      · cases hsome
        rfl
    | error e =>
      rcases hresult with hnone | hsome
      · cases hnone
      · cases hsome

/-- A pass, as the process runs it. -/
def pass (s : CaSyncService) : AgentProgram (Except Error SyncOutcome) :=
  (s.synchronize.run.inl : DaemonProgram (Except Error SyncOutcome)).inl

def synced (inner : List (SyncEvent Computer)) : List (AgentEvent Computer) :=
  (inner.map Event.inl).map Event.inl

theorem synced_mem {inner : List (SyncEvent Computer)} {e : SyncEvent Computer} (h : e ∈ inner) :
    (Event.inl (T := enrollSignature.sum hostSignature) e.inl : AgentEvent Computer) ∈
      synced inner :=
  List.mem_map_of_mem (List.mem_map_of_mem h)

theorem synced_append (first second : List (SyncEvent Computer)) :
    synced (first ++ second) = synced first ++ synced second := by
  unfold synced
  rw [List.map_append, List.map_append]

/-- Of the machine, the event leaves everything but the state files. -/
def KeepsRest (w w' : Computer) : Prop := w'.machine = { w.machine with dir := w'.machine.dir }

theorem KeepsRest.refl (w : Computer) : KeepsRest w w := rfl

theorem KeepsRest.trans {w₁ w₂ w₃ : Computer} (h : KeepsRest w₁ w₂) (h' : KeepsRest w₂ w₃) :
    KeepsRest w₁ w₃ := by
  rw [KeepsRest, h', h]

/-- A pass of the process is one over its state files. -/
theorem exec_pass {s : CaSyncService} {w w' : Computer} {trace : List (AgentEvent Computer)}
    {result : Option (Except Error SyncOutcome)} (h : Exec living (pass s) w trace result w') :
    ∃ inner : List (SyncEvent Computer), trace = synced inner ∧ KeepsRest w w' ∧
      Exec hostile s.synchronize.run w.machine.dir
        (inner.map (Event.map fun w => w.machine.dir)) result w'.machine.dir := by
  obtain ⟨middle, rfl, hmiddle⟩ := exec_inl h
  obtain ⟨inner, rfl, hinner⟩ := exec_inl hmiddle
  refine ⟨inner, rfl, ?_, hinner.map (f := fun w => w.machine.dir) fun _ _ _ _ h => h.2.2.1⟩
  exact hinner.relates KeepsRest.refl (fun _ _ _ => KeepsRest.trans)
    fun e he => (hinner.event_env e he).2.1

/-- The events are those of the passes, one pass after another, with calls of the process's own in
front of them, between them and behind them. -/
inductive Interleaves : List (AgentEvent Computer) → List (SyncPass StateDir) → Prop
  | nil : Interleaves [] []
  | own {e : AgentEvent Computer} {trace : List (AgentEvent Computer)}
      {passes : List (SyncPass StateDir)} (hop : IsOwn e.op) (hrest : Interleaves trace passes) :
      Interleaves (e :: trace) passes
  | pass {v v' : StateDir} {inner : List (SyncEvent Computer)}
      {result : Option (Except Error SyncOutcome)} {trace : List (AgentEvent Computer)}
      {passes : List (SyncPass StateDir)} (hrest : Interleaves trace passes) :
      Interleaves (synced inner ++ trace)
        (⟨v, inner.map (Event.map fun w => w.machine.dir), result, v'⟩ :: passes)

theorem Interleaves.behind {first rest : List (AgentEvent Computer)}
    {passes : List (SyncPass StateDir)} (hfirst : ∀ e ∈ first, IsReading e.op)
    (h : Interleaves rest passes) : Interleaves (first ++ rest) passes := by
  induction first with
  | nil => exact h
  | cons e first ih =>
    obtain ⟨he, hfirst⟩ := List.forall_mem_cons.mp hfirst
    exact Interleaves.own (own_of_reading _ he) (ih hfirst)

theorem Interleaves.of_reading {trace : List (AgentEvent Computer)}
    (h : ∀ e ∈ trace, IsReading e.op) : Interleaves trace [] := by
  have hbehind := Interleaves.nil.behind h
  rwa [List.append_nil] at hbehind

theorem Interleaves.mem {trace : List (AgentEvent Computer)} {passes : List (SyncPass StateDir)}
    (h : Interleaves trace passes) {e : AgentEvent Computer} (he : e ∈ trace) :
    IsOwn e.op ∨ ∃ e', e = Event.inl e' := by
  induction h with
  | nil => cases he
  | own hop _ ih =>
    rcases List.mem_cons.mp he with rfl | he
    · exact Or.inl hop
    · exact ih he
  | pass _ ih =>
    rcases List.mem_append.mp he with he | he
    · obtain ⟨e', _, rfl⟩ := List.mem_map.mp he
      exact Or.inr ⟨e', rfl⟩
    · exact ih he

/-- Work is done by a pass, behind what that pass did before. -/
theorem Interleaves.pass_at {trace : List (AgentEvent Computer)}
    {passes : List (SyncPass StateDir)} (h : Interleaves trace passes)
    {first rest : List (AgentEvent Computer)} {e : SyncEvent Computer} (hop : isWork e.op = true)
    (htrace : trace = first ++ Event.inl e.inl :: rest) :
    ∃ q ∈ passes, ∃ past head tail, first = past ++ synced head ∧
      q.trace = head.map (Event.map fun w => w.machine.dir) ++
        e.map (fun w => w.machine.dir) :: tail := by
  induction h generalizing first with
  | nil => simp at htrace
  | @own e' trace passes hown _ ih =>
    cases first with
    | nil =>
      cases htrace
      exact absurd hop (Bool.eq_false_iff.mp hown)
    | cons e'' first =>
      obtain ⟨rfl, hrest⟩ := List.cons.inj (List.cons_append .. ▸ htrace)
      obtain ⟨q, hq, past, head, tail, hpast, hpass⟩ := ih hrest
      exact ⟨q, hq, e' :: past, head, tail, by rw [hpast, List.cons_append], hpass⟩
  | @pass v v' inner result trace passes _ ih =>
    rcases split_append htrace.symm with ⟨mid, hinner, _⟩ | ⟨mid, rfl, hrest⟩
    · obtain ⟨outer, middle, hmiddle, rfl, hcons⟩ := List.map_eq_append_iff.mp hinner
      obtain ⟨e₁, _, rfl, he₁, _⟩ := List.map_eq_cons_iff.mp hcons
      obtain ⟨head, tail, rfl, rfl, htail⟩ := List.map_eq_append_iff.mp hmiddle
      obtain ⟨e₂, tail, rfl, rfl, _⟩ := List.map_eq_cons_iff.mp htail
      obtain rfl := Event.inl_injective (Event.inl_injective he₁)
      exact ⟨_, List.mem_cons_self .., [], head, tail.map (Event.map fun w => w.machine.dir), rfl,
        by simp⟩
    · obtain ⟨q, hq, past, head, tail, rfl, hpass⟩ := ih hrest
      exact ⟨q, List.mem_cons_of_mem _ hq, synced inner ++ past, head, tail,
        (List.append_assoc ..).symm, hpass⟩

/-- A trace of own calls and passes is a run of passes over the state files. -/
theorem parts_passes {s : CaSyncService} {w w' : Computer} {trace : List (AgentEvent Computer)}
    (h : Parts living IsOwn (pass s) w trace w') : ∃ passes : List (SyncPass StateDir),
      Run hostile s.synchronize.run w.machine.dir passes w'.machine.dir ∧ KeepsRest w w' ∧
      Interleaves trace passes := by
  induction h with
  | nil w => exact ⟨[], Run.nil _, KeepsRest.refl w, Interleaves.nil⟩
  | @call w w₁ w₂ op answer trace hop henv _ ih =>
    obtain ⟨passes, hrun, hrest, hpasses⟩ := ih
    have hsame := own_machine hop henv
    rw [hsame] at hrun
    rw [KeepsRest, hsame] at hrest
    exact ⟨passes, hrun, hrest, Interleaves.own hop hpasses⟩
  | part hexec _ ih =>
    obtain ⟨passes, hrun, hrest, hpasses⟩ := ih
    obtain ⟨inner, rfl, hkeeps, hpass⟩ := exec_pass hexec
    exact ⟨_ :: passes, Run.cons hpass hrun, hkeeps.trans hrest, Interleaves.pass hpasses⟩

section Assembly

variable {α : Type} {s : CaSyncService} {d : Heartbeats.Daemon}

theorem assembled_own {q : AgentProgram α} (h : q.Calls IsOwn) : Assembled IsOwn (pass s) q :=
  assembled_of_calls h

theorem assembled_daemonAction {x : DaemonAction α}
    (hx : Assembled (fun op => IsOwn (.inl op)) s.synchronize.run.inl x.run) :
    Assembled IsOwn (pass s) (daemonAction x).run :=
  (hx.inl fun _ h => h).bind fun _ => Assembled.done _

theorem own_of_calm {g : UInt64} (op : daemonSignature.Op) (h : PollingRuns.IsCalm g op) :
    IsOwn (.inl op) := by
  rcases op with op | op
  · cases op <;> first | rfl | exact h.elim
  · trivial

theorem calls_daemonAction {x : DaemonAction α} {g : UInt64}
    (hx : x.run.Calls (PollingRuns.IsCalm g)) : (daemonAction x).run.Calls IsOwn :=
  (calls_inl hx own_of_calm).bind fun _ => trivial

theorem calls_readKeypair (p : Platform) : (enrollAction (readKeypair p)).run.Calls IsReading := by
  have hquiet : (readKeypair p).run.Calls IsQuiet := calls_of_bind calls_loadMachineIdentity
  have hreading : ∀ op : EnrollOp, IsQuiet op → IsReading (.inr (.inl op)) := by
    intro op hop
    cases op <;> first | rfl | exact hop.elim
  exact (calls_inr (calls_inl hquiet hreading) fun _ h => h).bind fun _ => trivial

theorem calls_askChecked (op : HostOp) (check : op.Answer → Except Error α) :
    (askChecked op check).run.Calls IsReading := calls_bind (calls_perform trivial) fun _ => trivial

theorem act_assembled (status : RuntimeStatus) (action : PollAction) :
    Assembled (fun op => IsOwn (.inl op)) d.sync.synchronize.run.inl (d.act status action).run := by
  cases action with
  | heartbeat =>
    exact assembled_of_calls ((PollingRuns.calls_recordHeartbeat d status).mono own_of_calm)
  | bundleSync =>
    refine Assembled.andThen assembled_part.attempt fun result => ?_
    exact assembled_of_calls ((PollingRuns.calls_afterPass (g := 0) status).mono own_of_calm)

theorem polling_assembled (status : RuntimeStatus) (op : LoopOp) :
    Assembled IsOwn (pass d.sync) (polling d status op) := by
  cases op with
  | act action =>
    refine ((act_assembled status action).inl fun _ h => h).bind fun result => ?_
    cases result with
    | ok next => exact Assembled.done _
    | error e => exact Assembled.done _
  | now => exact Assembled.call rfl fun _ => Assembled.done _
  | nextDelay action interval => exact Assembled.call trivial fun _ => Assembled.done _
  | isRequested => exact Assembled.call rfl fun _ => Assembled.done _
  | threadSleep chunk => exact Assembled.call trivial fun _ => Assembled.done _
  | _ => exact Assembled.running

theorem loopAction_assembled (status : RuntimeStatus) (x : Scheduling.LoopAction Unit α) :
    Assembled IsOwn (pass d.sync) (loopAction d status x).run := by
  refine (Assembled.handle polling_assembled x.run status).bind fun r => ?_
  obtain ⟨result, next⟩ := r
  cases result with
  | ok a => exact Assembled.done _
  | error panic => exact Assembled.done _

theorem serve_assembled (generation : UInt64) (scheduler : Scheduling.Scheduler) (fuel : Nat) :
    Assembled IsOwn (pass d.sync) (serve d generation scheduler fuel).run := by
  refine Assembled.andThen (assembled_own (calls_daemonAction (PollingRuns.calls_saveStatus 0 _)))
    fun _ => ?_
  refine Assembled.andThen (assembled_daemonAction (act_assembled _ .heartbeat)) fun status => ?_
  refine Assembled.andThen (assembled_daemonAction (act_assembled _ .bundleSync)) fun status => ?_
  refine Assembled.andThen (loopAction_assembled _ _) fun r => ?_
  exact assembled_own (calls_daemonAction (PollingRuns.calls_saveStatus 0 _))

/-- All that booking the two cadences asks for. -/
def IsDraw : LoopOp → Prop
  | .nextDelay _ _ => True
  | _ => False

theorem calls_draw {status : RuntimeStatus} {op : LoopOp} (hop : IsDraw op) :
    (polling d status op).Calls IsReading := by
  cases op with
  | nextDelay action interval => exact ⟨trivial, fun _ => trivial⟩
  | _ => exact hop.elim

theorem calls_schedule (now : Bundles.Time) (heartbeat sync : Scheduling.JitteredInterval)
    (status : RuntimeStatus) :
    (loopAction d status (Scheduling.Scheduler.new now heartbeat sync)).run.Calls IsReading := by
  have hdraw : ∀ (action : PollAction) (interval : Scheduling.JitteredInterval),
      (Scheduling.dueFrom (T := Unit) now action interval).run.Calls IsDraw :=
    fun _ _ => ⟨trivial, fun _ => trivial⟩
  have hnew : (Scheduling.Scheduler.new (T := Unit) now heartbeat sync).run.Calls IsDraw :=
    calls_bind (hdraw .heartbeat _) fun _ => calls_bind (hdraw .bundleSync _) fun _ => trivial
  have hhandled := calls_handle (h := polling d) (I := fun _ => True) (Q := IsReading)
    (fun _ _ _ hop => ⟨calls_draw hop, yields_of_all (fun _ => trivial) _⟩) hnew (s := status)
    trivial
  refine hhandled.1.bind fun r => ?_
  obtain ⟨result, next⟩ := r
  cases result <;> trivial

end Assembly

/-- From the first computer to the last the events are those of the boot. Behind some reading come
the calls of its enrollment, and behind them its passes, with heartbeats, the runtime status and
reading around them. -/
structure Mirrors (b : Build) (state : AppState) (w : Computer)
    (trace : List (AgentEvent Computer)) (w' : Computer) (boot : Boot) : Prop where
  config : boot.config = state.config.forEnrollment
  client : ∃ keypair, boot.client = b.client keypair
  before : boot.before = w.machine
  after : boot.after = w'.machine
  course : ∃ first inner rest, trace = first ++ (enrolled inner ++ rest) ∧
    (∀ e ∈ first, IsReading e.op) ∧ boot.trace = inner.map (Event.map Computer.machine) ∧
    Interleaves rest boot.passes

section Processes

variable {α β : Type} {state : AppState} {w w' : Computer} {trace : List (AgentEvent Computer)}

/-- In front of what goes on, or instead of it, an action that only reads changes nothing. -/
theorem own_prefix {x : AgentAction α} {f : α → AgentAction β} {result : Option (Except Ending β)}
    (h : Exec living (x >>= f).run w trace result w') (hx : x.run.Calls IsReading) :
    (w'.machine = w.machine ∧ ∀ e ∈ trace, IsReading e.op) ∨
      ∃ a w₁ first rest, trace = first ++ rest ∧ Exec living x.run w first (some (.ok a)) w₁ ∧
        Exec living (f a).run w₁ rest result w' ∧ w₁.machine = w.machine ∧
        ∀ e ∈ first, IsReading e.op := by
  rcases exec_action_bind h with ⟨_, hkill⟩ | ⟨e, _, hfail⟩ |
    ⟨a, first, rest, w₁, rfl, hfirst, hrest⟩
  · exact Or.inl (own_trace hkill hx)
  · exact Or.inl (own_trace hfail hx)
  · obtain ⟨hmachine, hreading⟩ := own_trace hfirst hx
    exact Or.inr ⟨a, w₁, first, rest, rfl, hfirst, hrest, hmachine, hreading⟩

theorem calls_isRequested : isRequested.run.Calls IsReading := ⟨rfl, fun _ => trivial⟩

theorem calls_recover (host : HostFacts) (identity : MachineIdentity) :
    (recover b state host identity).run.Calls IsReading := by
  refine calls_bind (calls_readKeypair _) fun _ => calls_bind (calls_readKeypair _) fun _ => ?_
  have hread : readRuntimeGeneration.run.Calls fun op => isWork op = false :=
    calls_bind (calls_perform rfl) fun _ => trivial
  refine calls_bind ((calls_inl (calls_inl hread (Q := fun op => IsReading (.inl op)) fun _ h => h)
    fun _ h => h).bind fun _ => trivial) fun generation => ?_
  refine calls_bind (And.intro trivial fun _ => trivial) fun _ => ?_
  refine calls_bind (calls_askChecked _ _) fun _ => calls_bind (calls_askChecked _ _) fun _ => ?_
  refine calls_bind (And.intro rfl fun _ => trivial) fun now => ?_
  exact calls_bind (calls_schedule now _ _ _) fun _ => trivial

/-- The service that is built is that of the identity, with a keypair that was read. -/
theorem recover_yields (host : HostFacts) (identity : MachineIdentity) :
    YieldsOk (fun r => ∃ keypair,
      r.1.sync = syncService state.config.forEnrollment (b.client keypair) identity)
      (recover b state host identity) := by
  refine (yieldsOk_trivial _).andThen fun heartbeatKeypair _ => ?_
  refine (yieldsOk_trivial _).andThen fun syncKeypair _ => ?_
  refine (yieldsOk_trivial _).andThen fun generation _ => (yieldsOk_trivial _).andThen fun _ _ => ?_
  refine (yieldsOk_trivial _).andThen fun _ _ => (yieldsOk_trivial _).andThen fun _ _ => ?_
  refine (yieldsOk_trivial _).andThen fun now _ => (yieldsOk_trivial _).andThen fun r _ => ?_
  exact yieldsOk_pure ⟨syncKeypair, rfl⟩

theorem own_passes (s : CaSyncService)
    (h : w'.machine = w.machine ∧ ∀ e ∈ trace, IsReading e.op) :
    ∃ passes : List (SyncPass StateDir),
      Run hostile s.synchronize.run w.machine.dir passes w'.machine.dir ∧ KeepsRest w w' ∧
      Interleaves trace passes := by
  obtain ⟨hmachine, hreading⟩ := h
  refine ⟨[], ?_, ?_, Interleaves.of_reading hreading⟩
  · rw [hmachine]
    exact Run.nil _
  · rw [KeepsRest, hmachine]

/-- Stands for the keypair that a process did not come to read. -/
def unreadKeypair : MachineKeypair := ⟨Vector.replicate 32 0, []⟩

/-- What a start does with the identity it has is a run of passes. -/
theorem goOn_passes {host : HostFacts} {identity : MachineIdentity} {fuel : Nat}
    {result : Option (Except Ending Unit)}
    (h : Exec living (goOn b state host identity fuel).run w trace result w') :
    ∃ keypair passes, Run hostile
        (syncService state.config.forEnrollment (b.client keypair) identity).synchronize.run
        w.machine.dir passes w'.machine.dir ∧ KeepsRest w w' ∧ Interleaves trace passes := by
  rcases own_prefix h calls_isRequested with hown |
    ⟨seen, w₁, first, rest, rfl, _, hrest, hw₁, hreading⟩
  · exact ⟨unreadKeypair, own_passes _ hown⟩
  cases seen with
  | true =>
    obtain ⟨hmachine, hquiet⟩ := own_trace hrest trivial
    exact ⟨unreadKeypair, own_passes _
      ⟨hmachine.trans hw₁, List.forall_mem_append.mpr ⟨hreading, hquiet⟩⟩⟩
  | false =>
    rcases own_prefix hrest (calls_recover host identity) with ⟨hmachine, hquiet⟩ |
      ⟨⟨d, generation, scheduler⟩, w₂, second, rest, rfl, hsecond, hrest, hw₂, hquiet⟩
    · exact ⟨unreadKeypair, own_passes _ ⟨hmachine.trans hw₁,
        List.forall_mem_append.mpr ⟨hreading, hquiet⟩⟩⟩
    obtain ⟨keypair, hsync⟩ := exec_yields hsecond (recover_yields host identity) _ rfl
    have hparts := exec_parts (serve_assembled generation scheduler fuel) hrest
    rw [show d.sync = _ from hsync] at hparts
    obtain ⟨passes, hrun, hkeeps, hpasses⟩ := parts_passes hparts
    rw [KeepsRest, hw₂, hw₁] at hkeeps
    rw [hw₂, hw₁] at hrun
    exact ⟨keypair, passes, hrun, hkeeps, (hpasses.behind hquiet).behind hreading⟩

/-- The boot that a process is, up to the keypair of its passes. -/
def bootAs (b : Build) (state : AppState) (keypair : MachineKeypair) (w w₁ w' : Computer)
    (trace : List (EnrollEvent Machine)) (result : Option (Except Error MachineIdentity))
    (passes : List (SyncPass StateDir)) : Boot where
  config := state.config.forEnrollment
  client := b.client keypair
  before := w.machine
  trace := trace
  result := result
  started := w₁.machine
  passes := passes
  after := w'.machine

/-- A start that gets nowhere is a boot that does nothing. -/
theorem idle_boot (h : w'.machine = w.machine ∧ ∀ e ∈ trace, IsReading e.op) :
    ∃ boot, boot.Happens b.toPlatform ∧ Mirrors b state w trace w' boot := by
  obtain ⟨hmachine, hreading⟩ := h
  refine ⟨bootAs b state unreadKeypair w w w' [] none [],
    ⟨⟨[], 0, Exec.killed _ _⟩, Or.inl ⟨rfl, hmachine⟩⟩, rfl, ⟨_, rfl⟩, rfl, rfl, ?_⟩
  exact ⟨trace, [], [], (List.append_nil trace).symm, hreading, rfl, Interleaves.nil⟩

/-- From the enrollment on a start is a boot. -/
theorem enrollment_boot {host : HostFacts} {enrollFuel pollFuel : Nat}
    {result : Option (Except Ending Unit)}
    (h : Exec living (do
      let identity ← enrollAction
        (ensureEnrolled b.toPlatform state.config.forEnrollment host.hostname enrollFuel)
      goOn b state host identity pollFuel : AgentAction Unit).run w trace result w') :
    ∃ boot, boot.Happens b.toPlatform ∧ Mirrors b state w trace w' boot := by
  have hboot : ∀ {inner r}, trace = enrolled inner →
      Exec enrolling (ensureEnrolled b.toPlatform state.config.forEnrollment host.hostname
        enrollFuel).run w.machine (inner.map (Event.map Computer.machine)) r w'.machine →
      ∃ boot, boot.Happens b.toPlatform ∧ Mirrors b state w trace w' boot := by
    rintro inner r rfl hexec
    refine ⟨bootAs b state unreadKeypair w w' w' _ r [],
      ⟨⟨_, _, hexec⟩, Or.inl ⟨rfl, rfl⟩⟩, rfl, ⟨_, rfl⟩, rfl, rfl, ?_⟩
    exact ⟨[], inner, [], (List.append_nil _).symm, by simp, rfl, Interleaves.nil⟩
  rcases exec_action_bind h with ⟨_, hkill⟩ | ⟨e, _, hfail⟩ |
    ⟨identity, first, second, w₁, rfl, hfirst, hsecond⟩
  · obtain ⟨inner, r, htrace, hexec, _⟩ := exec_enrollAction hkill
    exact hboot htrace hexec
  · obtain ⟨inner, r, htrace, hexec, _⟩ := exec_enrollAction hfail
    exact hboot htrace hexec
  · obtain ⟨inner, r, rfl, hexec, hok⟩ := exec_enrollAction hfirst
    obtain ⟨keypair, passes, hrun, hkeeps, hpasses⟩ := goOn_passes hsecond
    refine ⟨bootAs b state keypair w w₁ w' _ r passes,
      ⟨⟨_, _, hexec⟩, Or.inr ⟨identity, _, hok identity rfl, hrun, hkeeps⟩⟩, rfl, ⟨_, rfl⟩, rfl,
      rfl, ?_⟩
    exact ⟨[], inner, second, rfl, by simp, rfl, hpasses⟩

/-- Reading in front of a boot belongs to it. -/
theorem Mirrors.behind {w₁ : Computer} {first rest : List (AgentEvent Computer)} {boot : Boot}
    (h : Mirrors b state w₁ rest w' boot) (hw₁ : w₁.machine = w.machine)
    (hreading : ∀ e ∈ first, IsReading e.op) : Mirrors b state w (first ++ rest) w' boot where
  config := h.config
  client := h.client
  before := h.before.trans hw₁
  after := h.after
  course := by
    obtain ⟨second, inner, rest, rfl, hsecond, htrace, hpasses⟩ := h.course
    exact ⟨first ++ second, inner, rest, (List.append_assoc ..).symm,
      List.forall_mem_append.mpr ⟨hreading, hsecond⟩, htrace, hpasses⟩

/-- What only reads and then is a boot, is that boot. -/
theorem reading_boot {x : AgentAction α} {f : α → AgentAction β}
    {result : Option (Except Ending β)} (h : Exec living (x >>= f).run w trace result w')
    (hx : x.run.Calls IsReading)
    (hf : ∀ {a w₁ rest}, Exec living (f a).run w₁ rest result w' →
      ∃ boot, boot.Happens b.toPlatform ∧ Mirrors b state w₁ rest w' boot) :
    ∃ boot, boot.Happens b.toPlatform ∧ Mirrors b state w trace w' boot := by
  rcases own_prefix h hx with hidle | ⟨a, w₁, first, rest, rfl, _, hrest, hw₁, hreading⟩
  · exact idle_boot hidle
  · obtain ⟨boot, hhappens, hmirrors⟩ := hf hrest
    exact ⟨boot, hhappens, hmirrors.behind hw₁ hreading⟩

/-- Every process is a boot. -/
theorem process_boot {enrollFuel pollFuel : Nat} {result : Option (Except Ending Unit)}
    (h : Exec living (run b state enrollFuel pollFuel).run w trace result w') :
    ∃ boot, boot.Happens b.toPlatform ∧ Mirrors b state w trace w' boot := by
  have hdir : ensureStateDir.run.Calls IsReading :=
    calls_bind (calls_askChecked _ _) fun _ => calls_bind (calls_askChecked _ _) fun _ =>
      calls_askChecked _ _
  have hsignals : installSignalHandlers.run.Calls IsReading :=
    calls_bind (calls_askChecked _ _) fun _ => calls_askChecked _ _
  have hhost : (askHost .hostFacts).run.Calls IsReading := ⟨trivial, fun _ => trivial⟩
  unfold run enrolledStart at h
  simp only [bind_assoc, pure_bind] at h
  refine reading_boot h hdir fun h => reading_boot h hsignals fun h => ?_
  exact reading_boot h hhost fun h => enrollment_boot h

/-- A life of processes is, for the files, the server and the helper, a life of boots. -/
theorem lifetime_boots {processes : List Process} (h : Lifetime b w processes w') :
    ∃ boots, Life b.toPlatform w.machine boots w'.machine ∧
      List.Forall₂ (fun x boot => Mirrors b x.state x.before x.trace x.after boot) processes
        boots := by
  induction h with
  | nil w => exact ⟨[], Life.nil _, List.Forall₂.nil⟩
  | @cons w w' x processes hbefore hprocess _ ih =>
    obtain ⟨enrollFuel, pollFuel, hexec⟩ := hprocess
    obtain ⟨boot, hhappens, hmirrors⟩ := process_boot hexec
    obtain ⟨boots, hlife, hall⟩ := ih
    refine ⟨boot :: boots, Life.cons ?_ hhappens ?_, List.Forall₂.cons hmirrors hall⟩
    · rw [hmirrors.before, hbefore]
      rfl
    · rwa [hmirrors.after]

end Processes

/-! A sample machine that is enrolled, on which everything goes well but the heartbeats. -/

/-- The sample platform, which saves one record only. -/
def savingPlatform : Platform :=
  { samplePlatform with recordToJson := fun record =>
      if record = sampleRecord then some (encodeUtf8 (recordJson sampleRecord)) else none }

def sampleBuild : Build where
  toPlatform := savingPlatform
  sign _ := sampleClient.sign
  base64Encode := sampleClient.base64Encode
  formatRfc3339 := sampleClient.formatRfc3339
  bundleFromJson := sampleClient.bundleFromJson
  ackToJson := sampleClient.ackToJson
  heartbeatFromJson _ := none

def sampleState (pin : Option Text) : AppState where
  config := {
    serverUrl := sampleUrl
    machineId := text "machine-01"
    heartbeatInterval := 60000000000
    syncInterval := 300000000000
    trustedCaPath := text "/etc/ssh/mayfly-ca.pub"
    sshdConfigPath := text "/etc/ssh/sshd_config"
    stateDir := text "/var/lib/mayfly-agent"
    identityDir := text "/etc/mayfly-agent"
    helperSocketPath := text "/run/mayfly-helper/helper.sock"
    helperTokenPath := text "/run/mayfly-helper/token"
    bundleSigningPublicKey := pin
    pollJitterRatio := some 0
    allowInsecureTls := false
    tlsCaPath := none
  }
  startupTime := sampleNow

def sampleFacts : HostFacts where
  hostname := sampleHost
  os := text "linux"
  kernel := text "6.1.0"
  arch := text "x86_64"
  ip := text "10.0.0.1"

/-- The server answers this to a fetch. A sleep is interrupted by the request to stop. -/
def sampleAnswer (get : Except Error HttpResponse) (w : Computer) :
    (op : agentSignature.Op) → Option (agentSignature.Answer op × Computer)
  | .inl (.inl (.read file)) => some (readEntry (w.machine.dir file), w)
  | .inl (.inl (.secureWrite file contents _)) => some (.ok (),
      { w with machine := { w.machine with dir := w.machine.dir.install file contents } })
  | .inl (.inl .now) => some (sampleNow, w)
  | .inl (.inl .randomBytes) => some (Vector.replicate 16 0, w)
  | .inl (.inl (.get _)) => some (get, w)
  | .inl (.inl (.post _)) => some (.ok ⟨200, []⟩, w)
  | .inl (.inl (.apply _)) => some (.ok .applied, w)
  | .inl (.inr (.heartbeatPost _)) => some (.error .heartbeatTransport, w)
  | .inl (.inr .loadStatus) => some (.ok w.status, w)
  | .inl (.inr (.saveStatus status)) => some (.ok (), { w with status := some status })
  | .inr (.inl .shutdownRequested) => some (w.requested, w)
  | .inr (.inl op) => some ((reachable w.machine accepting op).1,
      { w with machine := (reachable w.machine accepting op).2 })
  | .inr (.inr .createStateDir) => some (some (), w)
  | .inr (.inr .stateDirMetadata) => some (.ok ⟨false, 0, 0o040700⟩, w)
  | .inr (.inr (.setStateDirMode _)) => some (some (), w)
  | .inr (.inr (.registerSignal _)) => some (some (), w)
  | .inr (.inr .hostFacts) => some (sampleFacts, w)
  | .inr (.inr .newTransport) => some (.ok (), w)
  | .inr (.inr (.nextDelay _ interval)) => some (interval.base, w)
  | .inr (.inr (.threadSleep _)) => some ((), { w with requested := true })

theorem sampleAnswer_living (get : Except Error HttpResponse) (w : Computer)
    (op : agentSignature.Op) (answer : agentSignature.Answer op) (w' : Computer)
    (h : sampleAnswer get w op = some (answer, w')) : living w op answer w' := by
  rcases op with (op | op) | (op | op)
  · cases op with
    | secureWrite file contents mode =>
      obtain ⟨rfl, rfl⟩ := Prod.mk.inj (Option.some.inj h)
      exact ⟨fun h => h, rfl, Or.inl rfl, rfl⟩
    | read file =>
      obtain ⟨rfl, rfl⟩ := Prod.mk.inj (Option.some.inj h)
      exact ⟨fun h => h, rfl, ⟨rfl, rfl⟩, rfl⟩
    | _ =>
      obtain ⟨rfl, rfl⟩ := Prod.mk.inj (Option.some.inj h)
      exact ⟨fun h => h, rfl, rfl, rfl⟩
  · cases op with
    | saveStatus status =>
      obtain ⟨rfl, rfl⟩ := Prod.mk.inj (Option.some.inj h)
      exact ⟨fun h => h, rfl, Or.inl rfl⟩
    | loadStatus =>
      obtain ⟨rfl, rfl⟩ := Prod.mk.inj (Option.some.inj h)
      exact ⟨fun h => h, rfl, fun _ h => (Except.ok.inj h).symm, rfl⟩
    | heartbeatPost request =>
      obtain ⟨rfl, rfl⟩ := Prod.mk.inj (Option.some.inj h)
      exact ⟨fun h => h, rfl, rfl⟩
  · cases op with
    | shutdownRequested =>
      obtain ⟨rfl, rfl⟩ := Prod.mk.inj (Option.some.inj h)
      exact ⟨fun h => h, rfl, rfl, fun h => h, fun h => h⟩
    | _ =>
      obtain ⟨rfl, rfl⟩ := Prod.mk.inj (Option.some.inj h)
      exact ⟨fun h => h, reachable_enrolling _ _ _, rfl, trivial⟩
  · cases op with
    | threadSleep duration =>
      obtain ⟨rfl, rfl⟩ := Prod.mk.inj (Option.some.inj h)
      exact ⟨fun _ => rfl, rfl, rfl⟩
    | _ =>
      obtain ⟨rfl, rfl⟩ := Prod.mk.inj (Option.some.inj h)
      exact ⟨fun h => h, rfl, rfl⟩

/-- What an enrollment comes to on the sample machine, it comes to among the calls of a process. -/
theorem outcome_enrollAction {α : Type} (get : Except Error HttpResponse) {x : EnrollAction α}
    {a : α} {w : Computer} {m : Machine} (hw : w.requested = false)
    (h : outcome (EnrollmentRuns.Script.answer ⟨accepting, fun _ => false⟩) x.run w.machine =
      (some (.ok a), m)) :
    outcome (sampleAnswer get) (enrollAction x).run w =
      (some (.ok a), { w with machine := m }) := by
  have hinner : ∀ (p : Program enrollSignature (Except Error α)) (w : Computer),
      w.requested = false →
      outcome (sampleAnswer get) (p.inl.inr : AgentProgram (Except Error α)) w =
        ((outcome (EnrollmentRuns.Script.answer ⟨accepting, fun _ => false⟩) p w.machine).1,
          { w with machine := (outcome (EnrollmentRuns.Script.answer
            ⟨accepting, fun _ => false⟩) p w.machine).2 }) := by
    intro p
    induction p with
    | done a => exact fun _ _ => rfl
    | running => exact fun _ _ => rfl
    | call op next ih =>
      intro w hw
      have hmove : sampleAnswer get w (.inr (.inl op)) = some
          ((reachable w.machine accepting op).1,
            { w with machine := (reachable w.machine accepting op).2 }) := by
        obtain ⟨machine, status, requested⟩ := w
        obtain rfl : requested = false := hw
        cases op <;> rfl
      exact (outcome_call hmove).trans (ih (reachable w.machine accepting op).1
        { w with machine := (reachable w.machine accepting op).2 } hw)
  have hfirst : outcome (sampleAnswer get) (x.run.inl.inr : AgentProgram (Except Error α)) w =
      (some (.ok a), { w with machine := m }) := by
    rw [hinner _ w hw, h]
  exact outcome_bind _ hfirst

def enrolledMachine : Machine where
  identity
    | .privateKey => some (encodeUtf8 samplePem)
    | .publicKey => none
    | .record => some sampleRecordBytes
  dir := StateDir.empty
  lastResponse := none

def resting : Computer := ⟨enrolledMachine, none, false⟩

theorem sample_identity (config : Config) (hostname : Text) :
    outcome (EnrollmentRuns.Script.answer ⟨accepting, fun _ => false⟩)
      (ensureEnrolled savingPlatform config hostname 1).run enrolledMachine =
      (some (.ok sampleIdentity), enrolledMachine) :=
  (outcome_call rfl).trans (sample_loadMachineIdentity rfl rfl)

theorem sample_keypair : outcome (EnrollmentRuns.Script.answer ⟨accepting, fun _ => false⟩)
    (readKeypair savingPlatform).run enrolledMachine =
      (some (.ok sampleKeypair), enrolledMachine) :=
  EnrollmentRuns.sample_readKeypair ⟨_, samplePem, rfl, decodeUtf8_encodeUtf8 samplePem, if_pos rfl⟩

def sampleDaemon (pin : Option Text) : Heartbeats.Daemon :=
  clients sampleBuild (sampleState pin) sampleFacts sampleIdentity sampleKeypair sampleKeypair

def sampleScheduler (pin : Option Text) : Scheduling.Scheduler where
  heartbeat := cadence (sampleState pin) 60
  sync := cadence (sampleState pin) 300
  heartbeatDue := sampleNow + 60000000000
  syncDue := sampleNow + 300000000000

theorem sample_start (get : Except Error HttpResponse) (pin : Option Text) :
    outcome (sampleAnswer get) (enrolledStart sampleBuild (sampleState pin) 1).run resting =
      (some (.ok (sampleFacts, sampleIdentity)), resting) := by
  have hidentity := outcome_enrollAction get (w := resting) rfl
    (sample_identity (sampleState pin).config.forEnrollment sampleHost)
  have hdir : outcome (sampleAnswer get) ensureStateDir.run resting =
      (some (.ok ()), resting) := rfl
  have hsignals : outcome (sampleAnswer get) installSignalHandlers.run resting =
      (some (.ok ()), resting) := rfl
  have hfacts : outcome (sampleAnswer get) (askHost .hostFacts).run resting =
      (some (.ok sampleFacts), resting) := rfl
  unfold enrolledStart
  refine (outcome_action_ok _ hdir).trans ((outcome_action_ok _ hsignals).trans ?_)
  refine (outcome_action_ok _ hfacts).trans ?_
  exact outcome_action_ok _ hidentity

theorem sample_recover (get : Except Error HttpResponse) (pin : Option Text) :
    outcome (sampleAnswer get)
      (recover sampleBuild (sampleState pin) sampleFacts sampleIdentity).run resting =
      (some (.ok (sampleDaemon pin, 0, sampleScheduler pin)), resting) := by
  have hkeypair := outcome_enrollAction get (w := resting) rfl sample_keypair
  have hgeneration : outcome (sampleAnswer get)
      (daemonAction (syncing readRuntimeGeneration)).run resting =
        (some (.ok (0 : UInt64)), resting) := rfl
  refine (outcome_action_ok _ hkeypair).trans ((outcome_action_ok _ hkeypair).trans ?_)
  refine (outcome_action_ok _ hgeneration).trans ?_
  rfl

/-- What is left of the process behind its recovery. -/
theorem sample_run (get : Except Error HttpResponse) (pin : Option Text) (fuel : Nat) :
    outcome (sampleAnswer get) (run sampleBuild (sampleState pin) 1 fuel).run resting =
      outcome (sampleAnswer get) (serve (sampleDaemon pin) 0 (sampleScheduler pin) fuel).run
        resting := by
  have hflag : outcome (sampleAnswer get) isRequested.run resting =
      (some (.ok false), resting) := rfl
  unfold run
  rw [outcome_action_ok _ (sample_start get pin)]
  show outcome _ (goOn sampleBuild (sampleState pin) sampleFacts sampleIdentity fuel).run _ = _
  unfold goOn
  rw [outcome_action_ok _ hflag, if_neg Bool.false_ne_true,
    outcome_action_ok _ (sample_recover get pin)]

/-- The server does not answer, and the process stops in the poll loop. -/
def sampleServed : Option (Except Ending Unit) × Computer :=
  outcome (sampleAnswer (.error .caBundleTransport))
    (serve (sampleDaemon none) 0 (sampleScheduler none) 2).run resting

theorem sampleServed_well : sampleServed.1 = some (.ok ()) ∧
    sampleServed.2.status.map RuntimeStatus.cleanShutdown = some true := by
  decide +kernel

def sampleProcess : Process where
  state := sampleState none
  before := resting
  trace := (play (sampleAnswer (.error .caBundleTransport))
    (run sampleBuild (sampleState none) 1 2).run resting).1
  result := sampleServed.1
  after := sampleServed.2

theorem sampleProcess_exec : Exec living (run sampleBuild (sampleState none) 1 2).run resting
    sampleProcess.trace sampleServed.1 sampleProcess.after :=
  exec_played (sampleAnswer_living (.error .caBundleTransport))
    (sample_run (.error .caBundleTransport) none 2)

theorem sampleProcess_happens : sampleProcess.Happens sampleBuild := ⟨1, 2, sampleProcess_exec⟩

theorem sample_life : Lifetime sampleBuild resting [sampleProcess] sampleProcess.after :=
  Lifetime.cons rfl sampleProcess_happens (Lifetime.nil _)

theorem sampleProcess_well : sampleProcess.result = some (.ok ()) := sampleServed_well.1

theorem lifetime_boots_sample : sampleProcess.result = some (.ok ()) ∧
    ∃ boots, Life sampleBuild.toPlatform resting.machine boots sampleProcess.after.machine ∧
      List.Forall₂ (fun x boot => Mirrors sampleBuild x.state x.before x.trace x.after boot)
        [sampleProcess] boots :=
  ⟨sampleProcess_well, lifetime_boots sample_life⟩

def goldenAnswer : Except Error HttpResponse := .ok ⟨200, sampleBody golden⟩

def firstStatus (pin : Option Text) : Heartbeats.RuntimeStatus :=
  { (sampleDaemon pin).startingStatus 0 with
    lastHeartbeatUnix := some (unixTimestamp sampleNow)
    lastHeartbeatOk := some false }

def startedComputer (pin : Option Text) : Computer :=
  { resting with status := some ((sampleDaemon pin).startingStatus 0) }

/-- The sample machine behind its first heartbeat. -/
def beaten (pin : Option Text) : Computer := { resting with status := some (firstStatus pin) }

theorem sample_save (pin : Option Text) : outcome (sampleAnswer goldenAnswer)
    (daemonAction (Heartbeats.saveStatus ((sampleDaemon pin).startingStatus 0))).run resting =
      (some (.ok ()), startedComputer pin) := rfl

theorem sample_beat (pin : Option Text) : outcome (sampleAnswer goldenAnswer)
    (daemonAction ((sampleDaemon pin).recordHeartbeat ((sampleDaemon pin).startingStatus 0))).run
      (startedComputer pin) = (some (.ok (firstStatus pin)), beaten pin) := rfl

def Computer.put (w : Computer) (file : StateFile) (contents : Bytes) : Computer :=
  { w with machine := { w.machine with dir := w.machine.dir.install file contents } }

def Computer.obey (w : Computer) (_ : Text) : Computer := w

/-- Where the helper obeys and every write succeeds. -/
def sampleSyncing : Environment syncSignature Computer := fun w op answer w' =>
  living w (.inl (.inl op)) answer w'

theorem sampleSyncing_works : Working sampleSyncing (fun w => w.machine.dir) sampleNow
    Computer.put Computer.obey where
  read w file := sampleAnswer_living goldenAnswer w (.inl (.inl (.read file))) _ _ rfl
  write w file contents mode :=
    sampleAnswer_living goldenAnswer w (.inl (.inl (.secureWrite file contents mode))) _ _ rfl
  clock w := sampleAnswer_living goldenAnswer w (.inl (.inl .now)) _ _ rfl
  random w := sampleAnswer_living goldenAnswer w (.inl (.inl .randomBytes)) _ _ rfl
  post w request := sampleAnswer_living goldenAnswer w (.inl (.inl (.post request))) _ _ rfl
  apply w contents := sampleAnswer_living goldenAnswer w (.inl (.inl (.apply contents))) _ _ rfl
  dir_put _ _ _ := rfl
  dir_obey _ _ := rfl

theorem sampleSyncing_serves (w : Computer) (request : HttpRequest) :
    sampleSyncing w (.get request) goldenAnswer w :=
  sampleAnswer_living goldenAnswer w (.inl (.inl (.get request))) _ _ rfl

/-- A process that is killed behind a first pass, or in it. -/
theorem sample_killed_sync {pin : Option Text} {trace : List (SyncEvent Computer)} {w' : Computer}
    {result : Option (Except Error SyncOutcome)}
    (h : Exec sampleSyncing (sampleService pin).synchronize.run (beaten pin) trace result w') :
    Exec living (daemonAction ((sampleDaemon pin).recordSync (firstStatus pin))).run (beaten pin)
      (synced trace) none w' := by
  have hpass : Exec living (pass (sampleDaemon pin).sync) (beaten pin) (synced trace) none w' :=
    Exec.inl (Exec.inl h.stopped)
  unfold daemonAction Heartbeats.Daemon.recordSync
  refine Exec.killed_bind ?_
  rw [run_bind, inl_bind]
  refine Exec.killed_bind ?_
  unfold Action.attempt
  show Exec living
    (((sampleDaemon pin).sync.synchronize.run.inl >>= _ : Heartbeats.DaemonProgram _).inl) _ _ _ _
  rw [inl_bind]
  exact Exec.killed_bind hpass

theorem sample_process {pin : Option Text} {trace : List (SyncEvent Computer)} {w' : Computer}
    {result : Option (Except Error SyncOutcome)}
    (h : Exec sampleSyncing (sampleService pin).synchronize.run (beaten pin) trace result w') :
    ∃ front, Process.Happens sampleBuild
      ⟨sampleState pin, resting, front ++ synced trace, none, w'⟩ := by
  have hanswer := sampleAnswer_living goldenAnswer
  have hflag : outcome (sampleAnswer goldenAnswer) isRequested.run resting =
      (some (.ok false), resting) := rfl
  have hserve : ∃ front, Exec living
      (serve (sampleDaemon pin) 0 (sampleScheduler pin) 0).run resting (front ++ synced trace)
      none w' := by
    refine exec_played_front hanswer (sample_save pin) ?_
    refine exec_played_front hanswer (sample_beat pin) ⟨[], ?_⟩
    exact (sample_killed_sync h).killed_action
  have hgoOn : ∃ front, Exec living (goOn sampleBuild (sampleState pin) sampleFacts sampleIdentity
      0).run resting (front ++ synced trace) none w' := by
    unfold goOn
    refine exec_played_front hanswer hflag ?_
    rw [if_neg Bool.false_ne_true]
    exact exec_played_front hanswer (sample_recover goldenAnswer pin) hserve
  have hrun : ∃ front, Exec living (run sampleBuild (sampleState pin) 1 0).run resting
      (front ++ synced trace) none w' := by
    unfold run
    exact exec_played_front hanswer (sample_start goldenAnswer pin) hgoOn
  obtain ⟨front, hrun⟩ := hrun
  exact ⟨front, 1, 0, hrun⟩

end MayflyAgent.Lifecycles
