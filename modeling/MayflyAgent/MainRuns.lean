import MayflyAgent.LifeInvariants
import MayflyAgent.Startups

/-!
Runs of the whole program. Before the daemon starts it only looks around, and the helper gets to
see no more than a ping. The daemon starts exactly if the configuration can be loaded and the
identity directory is there, whatever the other checks find. So the life of a machine under the
whole program is a life under the daemon, with configurations that were loaded.
-/
namespace MayflyAgent.MainRuns

open RustText Programs Budgets Checks Errors Helper ConfigSources HelperCalls Daemons Lifecycles
open Startups

variable {W : Type} {ext : Bundles.Crypto} {responseFromJson : Bytes → Option Response}
  {config : FullConfig}

/-- The length of a request or the request itself. -/
def PartOf (request : Request) (bytes : Bytes) : Prop :=
  bytes = toBeBytes (UInt32.ofNat (requestBody request).length) ∨ bytes = requestBody request

/-- A call of the client that writes nothing but the request. -/
def WritesOnly (request : Request) : HelperOp → Prop
  | .writeAll bytes => PartOf request bytes
  | _ => True

/-- A check looks at the machine, or asks the helper for its version. -/
def IsLook : checkSignature.Op → Prop
  | .inl _ => True
  | .inr op => ∃ token, WritesOnly (Request.new token .ping) op

section Calls

variable {request : Request}

theorem calls_answered {α : Type} {op : HelperOp} {f : op.Answer → Except Error α}
    (hop : WritesOnly request op) : (do
      let answer ← Action.perform (S := helperSignature) op
      Action.ofExcept (f answer) : HelperAction α).run.Calls (WritesOnly request) :=
  calls_bind (calls_perform hop) fun _ => trivial

theorem writeFrame_calls : (writeFrame (requestBody request)).run.Calls (WritesOnly request) := by
  have hwrite : ∀ bytes, PartOf request bytes → (writeAll bytes).run.Calls (WritesOnly request) :=
    fun bytes hpart => calls_answered hpart
  unfold writeFrame
  by_cases hlong : maxBodyBytes < (requestBody request).length
  · rw [if_pos hlong]
    trivial
  rw [if_neg hlong]
  have hfits : okOr (tryFromU32 (requestBody request).length) Error.helperProtocol =
      .ok (UInt32.ofNat (requestBody request).length) := by
    have hsmall : maxBodyBytes < 2 ^ 32 := by decide
    unfold tryFromU32
    rw [if_pos (by omega)]
    rfl
  rw [hfits, ofExcept_ok_bind]
  refine calls_bind (hwrite _ (Or.inl rfl)) fun _ => ?_
  refine calls_bind (hwrite _ (Or.inr rfl)) fun _ => ?_
  exact calls_answered trivial

theorem readFrame_looks : readFrame.run.Calls (WritesOnly request) := by
  refine calls_bind (calls_answered trivial) fun lenBuf => ?_
  dsimp only
  by_cases hlong : maxBodyBytes < (fromBeBytes lenBuf).toNat
  · rw [if_pos hlong]
    trivial
  · rw [if_neg hlong]
    refine calls_bind (calls_perform trivial) fun _ => ?_
    exact calls_bind (calls_answered trivial) fun _ => trivial

theorem call_calls {client : HelperClient} (hclient : client.requestToJson = compactJson)
    (request : Request) : (client.call request).run.Calls (WritesOnly request) := by
  have hencode : encodeRequest client.requestToJson request = .ok (requestBody request) := by
    rw [hclient]
    rfl
  unfold HelperClient.call
  refine calls_bind (calls_answered trivial) fun _ => ?_
  refine calls_bind (calls_answered trivial) fun _ => ?_
  refine calls_bind (calls_answered trivial) fun _ => ?_
  rw [hencode, ofExcept_ok_bind]
  refine calls_bind writeFrame_calls fun _ => ?_
  exact calls_bind readFrame_looks fun _ => trivial

end Calls

theorem helperCheck_calls : (helperCheck responseFromJson config).Calls IsLook := by
  refine ⟨⟨[], trivial⟩, fun answer => ?_⟩
  cases answer with
  | none => trivial
  | some token =>
    have hping : (ping ((applierOf responseFromJson config).clientFor token)).run.Calls
        (WritesOnly (Request.new (trimText token) .ping)) :=
      calls_bind (call_calls rfl _) fun _ => trivial
    have hlook := calls_inr (S := startupSignature) (Q := IsLook) hping
      fun op hop => ⟨trimText token, hop⟩
    exact hlook.bind fun version => (trivial : (Program.done _ : CheckProgram Check).Calls IsLook)

theorem validateStartup_calls : (validateStartup ext responseFromJson config).Calls IsLook := by
  have hdir : ∀ name path missing detail, (dirCheck name path missing detail).Calls IsLook :=
    fun _ _ _ _ => ⟨trivial, fun _ => trivial⟩
  unfold validateStartup
  refine Program.Calls.bind (hdir _ _ _ _) fun _ => Program.Calls.bind (hdir _ _ _ _) fun _ => ?_
  refine Program.Calls.bind ⟨trivial, fun _ => trivial⟩ fun _ => ?_
  refine Program.Calls.bind helperCheck_calls fun _ => ?_
  refine Program.Calls.bind ⟨trivial, fun _ => trivial⟩ fun _ => ?_
  exact Program.Calls.bind ⟨trivial, fun _ => trivial⟩ fun _ => trivial

/-- A check that cannot fail. -/
def Survivable (check : Check) : Prop := check.severity ≠ .fail

theorem survivable_ok (name : Text) : Survivable (Check.ok name) := by
  intro h
  cases h

theorem survivable_warn (name detail : Text) : Survivable (Check.warn name detail) := by
  intro h
  cases h

theorem stateDir_survivable {name path detail : Text} :
    Yields Survivable (dirCheck name path .warn detail) := by
  intro present
  cases present with
  | true => exact survivable_ok _
  | false => exact survivable_warn _ _

theorem tokenCheck_survivable : Yields Survivable (tokenCheck config) := by
  refine Yields.bind (yields_of_all (fun _ => trivial) _ : Yields (fun _ => True) _) fun r _ => ?_
  rcases r with e | nonempty
  · exact survivable_warn _ _
  · cases nonempty with
    | true => exact survivable_ok _
    | false => exact survivable_warn _ _

theorem helperCheck_survivable : Yields Survivable (helperCheck responseFromJson config) := by
  unfold helperCheck
  refine Yields.bind (yields_of_all (fun _ => trivial) _ : Yields (fun _ => True) _) fun r _ => ?_
  rcases r with e | client
  · exact survivable_warn _ _
  · refine Yields.bind (yields_of_all (fun _ => trivial) _ : Yields (fun _ => True) _) fun r _ => ?_
    cases r with
    | ok _ => exact survivable_ok _
    | error _ => exact survivable_warn _ _

theorem systemdCheck_survivable : Yields Survivable systemdCheck := by
  intro present
  cases present with
  | true => exact survivable_ok _
  | false => exact survivable_warn _ _

theorem sshCompatCheck_survivable : Yields Survivable sshCompatCheck := by
  intro answer
  cases answer with
  | error e => exact survivable_warn _ _
  | ok contents =>
    show Survivable (if _ then _ else _)
    by_cases hincludes : SshdConfigs.includesDropinDir contents SshdConfigs.dropinDir = true
    · rw [if_pos hincludes]
      exact survivable_ok _
    · rw [if_neg hincludes]
      exact survivable_warn _ _

theorem failedNames_cons (check : Check) (checks : List Check) : failedNames (check :: checks) =
    (if check.severity = .fail then [check.name] else []) ++ failedNames checks := by
  unfold failedNames
  by_cases hfail : check.severity = .fail
  · rw [if_pos hfail, List.filter_cons_of_pos (by rw [hfail]; rfl)]
    rfl
  · rw [if_neg hfail, List.filter_cons_of_neg (by simpa using hfail)]
    rfl

theorem failedNames_survivable {checks : List Check} (h : ∀ check ∈ checks, Survivable check) :
    failedNames checks = [] := by
  induction checks with
  | nil => rfl
  | cons check checks ih =>
    obtain ⟨hcheck, hchecks⟩ := List.forall_mem_cons.mp h
    rw [failedNames_cons, if_neg hcheck, ih hchecks]
    rfl

/-- The names that a start fails with, by the configuration and the identity directory. -/
def fatalNames (ext : Bundles.Crypto) (config : FullConfig) (present : Bool) : List Text :=
  (if config.validate ext = .ok () then [] else [text "configuration"]) ++
    (if present = true then [] else [text "identity"])

/-- Whatever the other checks find, a start fails for the configuration or the identity only. -/
theorem validateStartup_fails {env : Environment checkSignature W} {w w' : W}
    {trace : List (Event checkSignature W)} {checks : List Check}
    (h : Exec env (validateStartup ext responseFromJson config) w trace (some checks) w') :
    ∃ (present : Bool) (v v' : W), (⟨v, .inl (.isDir config.identityDir), present, v'⟩ :
        Event checkSignature W) ∈ trace ∧
      failedNames checks = fatalNames ext config present := by
  unfold validateStartup at h
  rcases exec_bind h with ⟨hnone, _⟩ | ⟨identity, first, second, w₁, rfl, hidentity, hrest⟩
  · cases hnone
  have hothers : ∃ others, checks = configurationCheck ext config :: identity :: others ∧
      ∀ check ∈ others, Survivable check := by
    refine exec_yields (P := fun checks => ∃ others,
      checks = configurationCheck ext config :: identity :: others ∧
        ∀ check ∈ others, Survivable check) hrest ?_
    refine Yields.bind stateDir_survivable fun stateDir hstateDir => ?_
    refine Yields.bind tokenCheck_survivable fun token htoken => ?_
    refine Yields.bind helperCheck_survivable fun helper hhelper => ?_
    refine Yields.bind systemdCheck_survivable fun systemd hsystemd => ?_
    refine Yields.bind sshCompatCheck_survivable fun ssh hssh => ?_
    refine ⟨_, rfl, ?_⟩
    simp only [List.forall_mem_cons]
    exact ⟨hstateDir, htoken, hhelper, hsystemd, hssh, List.forall_mem_nil _⟩
  obtain ⟨others, rfl, hsurvivable⟩ := hothers
  rcases exec_call hidentity with ⟨_, hnone, _⟩ | ⟨present, v, rest, rfl, _, hdone⟩
  · cases hnone
  obtain ⟨rfl, -, hresult⟩ := exec_done hdone
  refine ⟨present, w, v, List.mem_cons_self .., ?_⟩
  rw [failedNames_cons, failedNames_cons, failedNames_survivable hsurvivable, List.append_nil]
  unfold fatalNames
  congr 1
  · unfold configurationCheck
    cases config.validate ext with
    | ok _ => rfl
    | error e => rfl
  · rcases hresult with hnone | hsome
    · cases hnone
    rw [Option.some.inj hsome]
    cases present <;> rfl

theorem intoResult_eq_ok {checks : List Check} :
    intoResult checks = .ok () ↔ failedNames checks = [] := by
  unfold intoResult
  rw [rejectIf_eq_ok, not_not]

/-- A valid configuration starts exactly if the identity directory is there. -/
theorem fatalNames_eq_nil (hvalid : config.validate ext = .ok ()) (present : Bool) :
    fatalNames ext config present = [] ↔ present = true := by
  unfold fatalNames
  rw [if_pos hvalid, List.nil_append]
  cases present with
  | true => exact iff_of_true rfl rfl
  | false => exact iff_of_false (List.cons_ne_nil _ _) Bool.false_ne_true

section Courses

variable {p : Parsers} {b : Build} {getEnv : Text → Option Text} {enrollFuel pollFuel : Nat}
  {env : Environment mainSignature W} {w w' : W} {trace : List (MainEvent W)}

/-- Before the daemon starts. -/
def IsStartup : mainSignature.Op → Prop
  | .inl op => IsLook op
  | .inr _ => False

def Looks (trace : List (MainEvent W)) : Prop := ∀ e ∈ trace, IsStartup e.op

/-- The call was made and answered this way. -/
def Answers (trace : List (MainEvent W)) (op : mainSignature.Op)
    (answer : mainSignature.Answer op) : Prop :=
  ∃ v v', (⟨v, op, answer, v'⟩ : MainEvent W) ∈ trace

theorem Answers.mono {trace' : List (MainEvent W)} {op : mainSignature.Op}
    {answer : mainSignature.Answer op} (h : Answers trace op answer)
    (hsub : ∀ e ∈ trace, e ∈ trace') : Answers trace' op answer := by
  obtain ⟨v, v', hmem⟩ := h
  exact ⟨v, v', hsub _ hmem⟩

/-- What the environment does for the daemon. -/
def forDaemon (env : Environment mainSignature W) : Environment agentSignature W :=
  fun v op answer v' => env v (.inr op) answer v'

def identityLook (config : FullConfig) : mainSignature.Op := .inl (.inl (.isDir config.identityDir))

/-- Behind some looks, which found the identity directory and are a run by themselves, comes a run
of the daemon. -/
def Starts {α : Type} (env : Environment mainSignature W) (x : MainProgram α) (b : Build)
    (config : FullConfig) (enrollFuel pollFuel : Nat) (w : W) (trace : List (MainEvent W))
    (result : Option (Except Ending Unit)) (w' : W) : Prop :=
  ∃ now looks daemon w₁, trace = looks ++ daemon.map Event.inr ∧ Looks looks ∧
    Answers looks (identityLook config) true ∧ Exec env x w looks none w₁ ∧
    Exec (forDaemon env) (Daemons.run b ⟨config.toConfig, now⟩ enrollFuel pollFuel).run w₁ daemon
      result w'

/-- The checks are a run of looks, which does not finish, fails for the identity directory, or
leads to a run of the daemon. -/
theorem checkedRun_course (hvalid : config.validate b.toCrypto = .ok ())
    {result : Option (Except Ending Unit)}
    (h : Exec env (checkedRun responseFromJson b config enrollFuel pollFuel) w trace result w') :
    (Looks trace ∧ result = none) ∨
    (Looks trace ∧ Answers trace (identityLook config) false ∧
      (result = none ∨ ∃ e, result = some (.error (.failed e)))) ∨
    Starts env (checkedRun responseFromJson b config enrollFuel pollFuel) b config enrollFuel
      pollFuel w trace result w' := by
  have hlooks : ((validateStartup b.toCrypto responseFromJson config).inl :
      MainProgram (List Check)).Calls IsStartup := calls_inl validateStartup_calls fun _ hop => hop
  rcases exec_bind h with ⟨rfl, hfirst⟩ | ⟨checks, first, second, w₁, rfl, hfirst, hrest⟩
  · exact Or.inl ⟨fun e he => hfirst.event_calls hlooks e he, rfl⟩
  have hseen : Looks first := fun e he => hfirst.event_calls hlooks e he
  obtain ⟨inner, rfl, hchecks⟩ := exec_inl hfirst
  obtain ⟨present, v, v', hmem, hnames⟩ := validateStartup_fails hchecks
  have hanswer : Answers (inner.map Event.inl) (identityLook config) present :=
    ⟨v, v', List.mem_map.mpr ⟨_, hmem, rfl⟩⟩
  have hpresent : intoResult checks = .ok () ↔ present = true := by
    rw [intoResult_eq_ok, hnames, fatalNames_eq_nil hvalid]
  cases hresult : intoResult checks with
  | error e =>
    have habsent : present = false := by
      rw [← Bool.not_eq_true, ← hpresent, hresult]
      intro hok
      cases hok
    rw [hresult] at hrest
    obtain ⟨rfl, rfl, hend⟩ := exec_done hrest
    rw [List.append_nil]
    exact Or.inr (Or.inl ⟨hseen, habsent ▸ hanswer, hend.imp_right fun hsome => ⟨e, hsome⟩⟩)
  | ok u =>
    obtain rfl := hpresent.mp hresult
    rw [hresult] at hrest
    have hgoes : Exec env (daemonRun b config enrollFuel pollFuel) w₁ second result w' := hrest
    rcases exec_call hgoes with ⟨rfl, rfl, rfl⟩ | ⟨now, w₂, rest, rfl, henv, hdaemon⟩
    · rw [List.append_nil]
      exact Or.inl ⟨hseen, rfl⟩
    obtain ⟨daemon, rfl, hrun⟩ := exec_inr hdaemon
    have hclock : Exec env (daemonRun b config enrollFuel pollFuel) w₁
        [⟨w₁, .inl (.inl .clockNow), now, w₂⟩] none w₂ := Exec.step henv (Exec.killed _ _)
    refine Or.inr (Or.inr ⟨now, inner.map Event.inl ++ [⟨w₁, .inl (.inl .clockNow), now, w₂⟩],
      daemon, w₂, by rw [List.append_assoc]; rfl, ?_, ?_, ?_, hrun⟩)
    · intro e he
      rcases List.mem_append.mp he with he | he
      · exact hseen e he
      · rw [List.mem_singleton.mp he]
        trivial
    · exact hanswer.mono fun e he => List.mem_append_left _ he
    · refine hfirst.bind ?_
      rw [hresult]
      exact hclock

/-- The file was read, and the configuration loaded from what was read. -/
def LoadedAs (p : Parsers) (b : Build) (getEnv : Text → Option Text) (trace : List (MainEvent W))
    (loaded : Except Error FullConfig) : Prop :=
  ∃ raw, Answers trace (.inl (.inl (.readConfig (configPath getEnv)))) raw ∧
    load p b.toCrypto raw getEnv = loaded

theorem load_valid {raw : Option Text} (h : load p ext raw getEnv = .ok config) :
    config.validate ext = .ok () := by
  cases raw with
  | none => cases h
  | some toml =>
    cases hbase : p.fromToml toml with
    | none =>
      have herror : load p ext (some toml) getEnv = .error .configParse := by
        show fromTomlWithEnv p ext toml getEnv = _
        unfold fromTomlWithEnv
        rw [hbase]
        rfl
      rw [herror] at h
      cases h
    | some base => exact ((ConfigLoads.load_eq_ok hbase).mp h).2

/-- A run that only looks around, and fails for the configuration or the identity directory. -/
def Refused (p : Parsers) (b : Build) (getEnv : Text → Option Text) (trace : List (MainEvent W)) :
    Prop :=
  (∃ e, LoadedAs p b getEnv trace (.error e)) ∨
    ∃ config, LoadedAs p b getEnv trace (.ok config) ∧ Answers trace (identityLook config) false

/-- A loaded configuration is run, and how that ends is the exit code. -/
theorem runLoaded_ends {result : Option (Except Scheduling.Panic ExitCode)}
    (h : Exec env (runLoaded responseFromJson b enrollFuel pollFuel (.ok config)) w trace result
      w') :
    ∃ ended, Exec env (checkedRun responseFromJson b config enrollFuel pollFuel) w trace ended w' ∧
      result = ended.map exitCode := by
  have hgoes : Exec env (checkedRun responseFromJson b config enrollFuel pollFuel >>= fun r =>
    pure (exitCode r)) w trace result w' := h
  rcases exec_bind hgoes with ⟨rfl, hfirst⟩ | ⟨ended, first, second, w₁, rfl, hfirst, hdone⟩
  · exact ⟨none, hfirst, rfl⟩
  obtain ⟨rfl, rfl, rfl | rfl⟩ := exec_done hdone
  · rw [List.append_nil]
    exact ⟨none, hfirst.stopped, rfl⟩
  · rw [List.append_nil]
    exact ⟨some ended, hfirst, rfl⟩

/-- Every run of the program looks around first. It is killed there, or refused, or goes on as a
run of the daemon with the configuration that was loaded, and ends as that one does. -/
theorem main_course {result : Option (Except Scheduling.Panic ExitCode)}
    (h : Exec env (main p responseFromJson b getEnv enrollFuel pollFuel) w trace result w') :
    (Looks trace ∧ result = none) ∨
    (Looks trace ∧ Refused p b getEnv trace ∧ result = some (.ok .failure)) ∨
    ∃ config ended, LoadedAs p b getEnv trace (.ok config) ∧
      Starts env (main p responseFromJson b getEnv enrollFuel pollFuel) b config enrollFuel
        pollFuel w trace ended w' ∧ result = ended.map exitCode := by
  rcases exec_call h with ⟨rfl, rfl, rfl⟩ | ⟨raw, w₁, rest, rfl, henv, hrest⟩
  · exact Or.inl ⟨List.forall_mem_nil _, rfl⟩
  let read : MainEvent W := ⟨w, .inl (.inl (.readConfig (configPath getEnv))), raw, w₁⟩
  have hread : Answers (read :: rest) (.inl (.inl (.readConfig (configPath getEnv)))) raw :=
    ⟨w, w₁, List.mem_cons_self ..⟩
  have hlooks : ∀ {looks : List (MainEvent W)}, Looks looks → Looks (read :: looks) :=
    fun hlooks => List.forall_mem_cons.mpr ⟨trivial, hlooks⟩
  have hgoes : Exec env (runLoaded responseFromJson b enrollFuel pollFuel
    (load p b.toCrypto raw getEnv)) w₁ rest result w' := hrest
  cases hload : load p b.toCrypto raw getEnv with
  | error e =>
    rw [hload] at hgoes
    obtain ⟨rfl, rfl, rfl | rfl⟩ := exec_done hgoes
    · exact Or.inl ⟨hlooks (List.forall_mem_nil _), rfl⟩
    · exact Or.inr (Or.inl ⟨hlooks (List.forall_mem_nil _), Or.inl ⟨e, raw, hread, hload⟩, rfl⟩)
  | ok config =>
    rw [hload] at hgoes
    obtain ⟨ended, hchecked, rfl⟩ := runLoaded_ends hgoes
    rcases checkedRun_course (load_valid hload) hchecked with
      ⟨hseen, rfl⟩ | ⟨hseen, habsent, rfl | ⟨e, rfl⟩⟩ |
        ⟨now, looks, daemon, w₂, rfl, hseen, hpresent, hfirst, hrun⟩
    · exact Or.inl ⟨hlooks hseen, rfl⟩
    · exact Or.inl ⟨hlooks hseen, rfl⟩
    · refine Or.inr (Or.inl ⟨hlooks hseen, Or.inr ⟨config, ⟨raw, hread, hload⟩, ?_⟩, rfl⟩)
      exact habsent.mono fun e he => List.mem_cons_of_mem _ he
    · have hstarts : Exec env (main p responseFromJson b getEnv enrollFuel pollFuel) w
          (read :: looks) none w₂ := by
        have hkilled : Exec env (runLoaded responseFromJson b enrollFuel pollFuel
            (load p b.toCrypto raw getEnv)) w₁ looks none w₂ := by
          rw [hload]
          exact hfirst.killed_bind
        exact Exec.step henv hkilled
      refine Or.inr (Or.inr ⟨config, ended, ⟨raw, hread, hload⟩, ?_, rfl⟩)
      exact ⟨now, read :: looks, daemon, w₂, rfl, hlooks hseen,
        hpresent.mono fun e he => List.mem_cons_of_mem _ he, hstarts, hrun⟩

/-- A run that does not start the daemon only looks around, and does not succeed. -/
theorem main_idles_or_starts {result : Option (Except Scheduling.Panic ExitCode)}
    (h : Exec env (main p responseFromJson b getEnv enrollFuel pollFuel) w trace result w') :
    (Looks trace ∧ result ≠ some (.ok .success)) ∨
    ∃ config ended, LoadedAs p b getEnv trace (.ok config) ∧
      Starts env (main p responseFromJson b getEnv enrollFuel pollFuel) b config enrollFuel
        pollFuel w trace ended w' ∧ result = ended.map exitCode := by
  rcases main_course h with ⟨hlooks, rfl⟩ | ⟨hlooks, _, rfl⟩ | hstarts
  · refine Or.inl ⟨hlooks, fun h => ?_⟩
    cases h
  · refine Or.inl ⟨hlooks, fun h => ?_⟩
    cases h
  · exact Or.inr hstarts

/-- What the daemon does answers no look. -/
theorem Answers.of_looks {looks : List (MainEvent W)} {daemon : List (AgentEvent W)}
    {op : checkSignature.Op} {answer : mainSignature.Answer (.inl op)}
    (h : Answers (looks ++ daemon.map Event.inr) (.inl op) answer) :
    Answers looks (.inl op) answer := by
  obtain ⟨v, v', hmem⟩ := h
  rcases List.mem_append.mp hmem with hlook | hdaemon
  · exact ⟨v, v', hlook⟩
  · obtain ⟨e, _, heq⟩ := List.mem_map.mp hdaemon
    have hop : (Sum.inr e.op : mainSignature.Op) = .inl op := congrArg Event.op heq
    cases hop

/-- The program looks around, asking the helper for no more than its version, and does anything else
or succeeds only behind a look that loaded the configuration and one that found the identity
directory. -/
theorem main_looks_first {result : Option (Except Scheduling.Panic ExitCode)}
    (h : Exec env (main p responseFromJson b getEnv enrollFuel pollFuel) w trace result w') :
    ∃ (looks : List (MainEvent W)) (daemon : List (AgentEvent W)),
      trace = looks ++ daemon.map Event.inr ∧ Looks looks ∧
        (daemon ≠ [] ∨ result = some (.ok .success) → ∃ config,
          LoadedAs p b getEnv looks (.ok config) ∧ Answers looks (identityLook config) true) := by
  rcases main_idles_or_starts h with ⟨hlooks, hresult⟩ |
    ⟨config, ended, ⟨raw, hread, hload⟩, hstarts, _⟩
  · refine ⟨trace, [], (List.append_nil _).symm, hlooks, fun hserved => ?_⟩
    rcases hserved with hsent | hsuccess
    · exact absurd rfl hsent
    · exact absurd hsuccess hresult
  · obtain ⟨now, looks, daemon, w₁, rfl, hlooks, hpresent, _, _⟩ := hstarts
    exact ⟨looks, daemon, rfl, hlooks, fun _ => ⟨config, ⟨raw, hread.of_looks, hload⟩, hpresent⟩⟩

end Courses

/-- The looks of a start change nothing on the computer. -/
def booting : Environment mainSignature Computer := fun w op answer w' =>
  match op, answer with
  | .inl _, _ => w' = w
  | .inr op, answer => living w op answer w'

structure MainProcess where
  getEnv : Text → Option Text
  before : Computer
  trace : List (MainEvent Computer)
  result : Option (Except Scheduling.Panic ExitCode)
  after : Computer

section Lives

variable (p : Parsers) (responseFromJson : Bytes → Option Response) (b : Build)

def MainProcess.Happens (x : MainProcess) : Prop := ∃ enrollFuel pollFuel,
  Exec booting (main p responseFromJson b x.getEnv enrollFuel pollFuel) x.before x.trace x.result
    x.after

inductive MainLifetime : Computer → List MainProcess → Computer → Prop
  | nil (w : Computer) : MainLifetime w [] w
  | cons {w w' : Computer} {x : MainProcess} {processes : List MainProcess}
      (hbefore : x.before = w.restarted) (hprocess : x.Happens p responseFromJson b)
      (hrest : MainLifetime x.after processes w') : MainLifetime w (x :: processes) w'

def daemonEvent : MainEvent Computer → Option (AgentEvent Computer)
  | ⟨before, .inr op, answer, after⟩ => some ⟨before, op, answer, after⟩
  | ⟨_, .inl _, _, _⟩ => none

/-- What the process is as one of the daemon. A process that never starts the daemon is one that is
killed at once. -/
structure Embodies (fallback : AppState) (m : MainProcess) (x : Process) : Prop where
  before : x.before = m.before
  after : x.after = m.after
  trace : x.trace = m.trace.filterMap daemonEvent
  state : (x.trace = [] ∧ x.state = fallback) ∨
    ∃ config, LoadedAs p b m.getEnv m.trace (.ok config) ∧ x.state.config = config.toConfig
  success : m.result = some (.ok .success) → x.result = some (.ok ())

variable {p responseFromJson b}

theorem looks_daemonEvents {looks : List (MainEvent Computer)} (h : Looks looks) :
    looks.filterMap daemonEvent = [] := by
  refine List.filterMap_eq_nil_iff.mpr fun e he => ?_
  have hlook := h e he
  obtain ⟨before, op, answer, after⟩ := e
  cases op with
  | inl op => rfl
  | inr op => exact absurd hlook id

theorem daemonEvents_inr (daemon : List (AgentEvent Computer)) :
    (daemon.map (Event.inr : AgentEvent Computer → MainEvent Computer)).filterMap daemonEvent =
      daemon := by
  induction daemon with
  | nil => rfl
  | cons e daemon ih =>
    have hevent : daemonEvent (Event.inr e : MainEvent Computer) = some e := rfl
    rw [List.map_cons, List.filterMap_cons_some hevent, ih]

theorem looks_keep {α : Type} {x : MainProgram α} {looks : List (MainEvent Computer)}
    {result : Option α} {w w' : Computer} (h : Exec booting x w looks result w')
    (hlooks : Looks looks) : w' = w := by
  refine h.frame id fun e he => ?_
  have hlook := hlooks e he
  have hmove := h.event_env e he
  obtain ⟨before, op, answer, after⟩ := e
  cases op with
  | inl op => exact hmove
  | inr op => exact absurd hlook id

theorem exitCode_success {ended : Option (Except Ending Unit)}
    (h : ended.map exitCode = some (.ok .success)) : ended = some (.ok ()) := by
  cases ended with
  | none => cases h
  | some r =>
    rcases r with ⟨e | panic⟩ | u
    · cases h
    · cases h
    · rfl

theorem process_embodied (fallback : AppState) {m : MainProcess}
    (h : m.Happens p responseFromJson b) :
    ∃ x : Process, x.Happens b ∧ Embodies p b fallback m x := by
  obtain ⟨enrollFuel, pollFuel, hexec⟩ := h
  rcases main_idles_or_starts hexec with ⟨hlooks, hresult⟩ |
    ⟨config, ended, hloaded, hstarts, hresult⟩
  · refine ⟨⟨fallback, m.before, [], none, m.after⟩, ⟨0, 0, ?_⟩, rfl, rfl,
      (looks_daemonEvents hlooks).symm, Or.inl ⟨rfl, rfl⟩, fun h => absurd h hresult⟩
    rw [looks_keep hexec hlooks]
    exact Exec.killed _ _
  · obtain ⟨now, looks, daemon, w₁, htrace, hlooks, _, hfirst, hdaemon⟩ := hstarts
    rw [looks_keep hfirst hlooks] at hdaemon
    refine ⟨⟨⟨config.toConfig, now⟩, m.before, daemon, ended, m.after⟩,
      ⟨enrollFuel, pollFuel, hdaemon⟩, rfl, rfl, ?_, Or.inr ⟨config, hloaded, rfl⟩, ?_⟩
    · rw [htrace, List.filterMap_append, looks_daemonEvents hlooks, daemonEvents_inr]
      rfl
    · intro hsuccess
      exact exitCode_success (hresult.symm.trans hsuccess)

/-- A life under the whole program is a life under the daemon, whose processes go by what was
loaded. -/
theorem main_lifetime (fallback : AppState) {w w' : Computer} {processes : List MainProcess}
    (h : MainLifetime p responseFromJson b w processes w') :
    ∃ daemons, Lifetime b w daemons w' ∧
      List.Forall₂ (Embodies p b fallback) processes daemons := by
  induction h with
  | nil w => exact ⟨[], Lifetime.nil w, List.Forall₂.nil⟩
  | cons hbefore hprocess _ ih =>
    obtain ⟨x, hhappens, hembodies⟩ := process_embodied fallback hprocess
    obtain ⟨daemons, hlife, hall⟩ := ih
    refine ⟨x :: daemons, Lifetime.cons ?_ hhappens ?_, List.Forall₂.cons hembodies hall⟩
    · exact hembodies.before.trans hbefore
    · rw [hembodies.after]
      exact hlife

end Lives

def bootToml : Text :=
  text "server_url = 'https://mayfly.example'\nmachine_id = 'machine-01'\n" ++
    text "poll_jitter_ratio = 0.0\nstate_dir = '/var/lib/mayfly-agent'\n" ++
    text "trusted_ca_path = '/etc/ssh/mayfly-ca.pub'\n" ++
    text "sshd_config_path = '/etc/ssh/sshd_config'\n" ++
    text "helper_socket_path = '/run/mayfly-helper/helper.sock'\n" ++
    text "helper_token_path = '/run/mayfly-helper/token'\n"

def bootConfig : FullConfig where
  toConfig := (sampleState none).config
  logLevel := .info
  logFormat := .json

def bootParsers : Parsers where
  fromToml toml := if toml = bootToml then some bootConfig else none
  parseF64 _ := none

/-- There are the directories, and nothing of the helper. -/
def bootAnswer (w : Computer) :
    (op : checkSignature.Op) → Option (checkSignature.Answer op × Computer)
  | .inl (.readConfig _) => some (some bootToml, w)
  | .inl (.isDir _) => some (true, w)
  | .inl (.readToString _) => some (.error .notFound, w)
  | .inl .clockNow => some (BundleValidation.sampleNow, w)
  | .inr (.readToString _) => some (none, w)
  | .inr _ => none

theorem bootAnswer_booting (w : Computer) (op : checkSignature.Op)
    (answer : checkSignature.Answer op) (w' : Computer)
    (h : bootAnswer w op = some (answer, w')) : booting w (.inl op) answer w' := by
  rcases op with op | op
  · cases op <;> exact (congrArg Prod.snd (Option.some.inj h)).symm
  · cases op <;> first | exact (congrArg Prod.snd (Option.some.inj h)).symm | cases h

/-- What the checks of the sample machine find. -/
def bootChecks : List Check :=
  [configurationCheck sampleBuild.toCrypto bootConfig, Check.ok (text "identity"),
    Check.ok (text "state_dir"),
    Check.warn (text "helper_token") (text "helper token file is empty"),
    Check.warn (text "helper") (text "helper token unavailable"), Check.ok (text "systemd"),
    Check.warn (text "ssh_compatibility") (text "sshd_config is unreadable")]

theorem bootConfig_valid : bootConfig.validate sampleBuild.toCrypto = .ok () := by decide +kernel

theorem bootConfig_loads :
    load bootParsers sampleBuild.toCrypto (some bootToml) (fun _ => none) = .ok bootConfig :=
  (ConfigLoads.load_eq_ok (if_pos rfl)).mpr ⟨fun _ => rfl, bootConfig_valid⟩

theorem bootChecks_pass : intoResult bootChecks = .ok () := by
  have hconfiguration : configurationCheck sampleBuild.toCrypto bootConfig =
      Check.ok (text "configuration") := by
    unfold configurationCheck
    rw [bootConfig_valid]
  refine intoResult_eq_ok.mpr (failedNames_survivable fun check hcheck => ?_)
  unfold bootChecks at hcheck
  rw [hconfiguration] at hcheck
  simp only [List.mem_cons, List.not_mem_nil, or_false] at hcheck
  rcases hcheck with rfl | rfl | rfl | rfl | rfl | rfl | rfl
  · exact survivable_ok _
  · exact survivable_ok _
  · exact survivable_ok _
  · exact survivable_warn _ _
  · exact survivable_warn _ _
  · exact survivable_ok _
  · exact survivable_warn _ _

theorem bootChecks_played : outcome bootAnswer
    (validateStartup sampleBuild.toCrypto (fun _ => none) bootConfig) resting =
      (some bootChecks, resting) := rfl

theorem boot_daemon : ∃ trace, Exec booting (daemonRun sampleBuild bootConfig 1 2) resting trace
    (some (.ok ())) sampleProcess.after := by
  have hclock : booting resting (.inl (.inl .clockNow)) BundleValidation.sampleNow resting := rfl
  have hrun : Exec living (Daemons.run sampleBuild (sampleState none) 1 2).run resting
      sampleProcess.trace (some (.ok ())) sampleProcess.after := by
    rw [← sampleServed_well.1]
    exact sampleProcess_exec
  exact ⟨_, Exec.step hclock (Exec.inr hrun)⟩

theorem boot_exec : ∃ trace, Exec booting
    (main bootParsers (fun _ => none) sampleBuild (fun _ => none) 1 2) resting trace
      (some (.ok .success)) sampleProcess.after := by
  obtain ⟨daemon, hdaemon⟩ := boot_daemon
  have hchecks : Exec (fun v op answer v' => booting v (.inl op) answer v')
      (validateStartup sampleBuild.toCrypto (fun _ => none) bootConfig) resting
      (play bootAnswer (validateStartup sampleBuild.toCrypto (fun _ => none) bootConfig) resting).1
      (some bootChecks) resting := exec_played bootAnswer_booting bootChecks_played
  have hchecked : ∃ trace, Exec booting (checkedRun (fun _ => none) sampleBuild bootConfig 1 2)
      resting trace (some (.ok ())) sampleProcess.after := by
    refine ⟨_ ++ daemon, hchecks.inl.bind ?_⟩
    rw [bootChecks_pass]
    exact hdaemon
  have hread : booting resting (.inl (.inl (.readConfig (configPath fun _ => none))))
      (some bootToml) resting := rfl
  have hloaded : ∃ trace, Exec booting (runLoaded (fun _ => none) sampleBuild 1 2
      (load bootParsers sampleBuild.toCrypto (some bootToml) fun _ => none)) resting trace
        (some (.ok .success)) sampleProcess.after := by
    obtain ⟨trace, hchecked⟩ := hchecked
    rw [bootConfig_loads]
    exact ⟨_, hchecked.bind (Exec.finished _ _)⟩
  obtain ⟨trace, hloaded⟩ := hloaded
  exact ⟨_, Exec.step hread hloaded⟩

theorem main_looks_first_sample : ∃ (looks : List (MainEvent Computer))
    (daemon : List (AgentEvent Computer)),
      Exec booting (main bootParsers (fun _ => none) sampleBuild (fun _ => none) 1 2) resting
        (looks ++ daemon.map Event.inr) (some (.ok .success)) sampleProcess.after ∧
      Looks looks ∧ ∃ config, LoadedAs bootParsers sampleBuild (fun _ => none) looks (.ok config) ∧
        Answers looks (identityLook config) true := by
  obtain ⟨trace, hexec⟩ := boot_exec
  obtain ⟨looks, daemon, rfl, hlooks, hserved⟩ := main_looks_first hexec
  exact ⟨looks, daemon, hexec, hlooks, hserved (Or.inr rfl)⟩

theorem main_lifetime_sample : ∃ m : MainProcess, m.result = some (.ok .success) ∧
    ∃ daemons, Lifetime sampleBuild resting daemons m.after ∧
      List.Forall₂ (Embodies bootParsers sampleBuild (sampleState none)) [m] daemons := by
  obtain ⟨trace, hexec⟩ := boot_exec
  let m : MainProcess :=
    ⟨fun _ => none, resting, trace, some (.ok .success), sampleProcess.after⟩
  have hhappens : m.Happens bootParsers (fun _ => none) sampleBuild := ⟨1, 2, hexec⟩
  have hlife : MainLifetime bootParsers (fun _ => none) sampleBuild resting [m] m.after :=
    MainLifetime.cons rfl hhappens (MainLifetime.nil _)
  exact ⟨m, rfl, main_lifetime (sampleState none) hlife⟩

end MayflyAgent.MainRuns
