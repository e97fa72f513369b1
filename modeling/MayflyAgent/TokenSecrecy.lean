import MayflyAgent.Attempts
import MayflyAgent.CleanStops
import MayflyAgent.Simulations

/-!
The enrollment token is for the server only. A process that starts with another token goes through
the same computers, with the same answers and the same calls: of all its requests and writes only
the bodies of the enrollment requests differ, and only in the token. So no file holds anything of
it.
-/
namespace MayflyAgent.TokenSecrecy

open RustText Programs Checks Errors CaSync Daemons Lifecycles
open Enrollment EnrollmentRuns

variable {b : Build} {α β : Type}

variable (b) in
/-- `serde_json` serializes every request. -/
def Serializes : Prop := ∀ request, b.requestToJson request ≠ none

/-- The process is started with this token. -/
def told (token : Text) : Environment agentSignature Computer := fun w op answer w' =>
  living w op answer w' ∧
    match op, answer with
    | .inr (.inl .enrollmentToken), (answer : Option Text) => answer = some token
    | _, _ => True

/-- The events are the same, or they hear or present the one token and the other. -/
inductive SameButToken (b : Build) (token token' : Text) :
    AgentEvent Computer → AgentEvent Computer → Prop
  | same (e : AgentEvent Computer) : SameButToken b token token' e e
  | heard (w w' : Computer) : SameButToken b token token'
      ⟨w, .inr (.inl .enrollmentToken), some token, w'⟩
      ⟨w, .inr (.inl .enrollmentToken), some token', w'⟩
  | presented {request : EnrollmentRequest} {body body' : Bytes} (w w' : Computer) (url : Text)
      (answer : Except Error HttpResponse)
      (hbody : b.requestToJson { request with enrollmentToken := token } = some body)
      (hbody' : b.requestToJson { request with enrollmentToken := token' } = some body') :
      SameButToken b token token' ⟨w, .inr (.inl (.postJson url body)), answer, w'⟩
        ⟨w, .inr (.inl (.postJson url body')), answer, w'⟩

section Enrolling

variable {token token' : Text}

/-- The two runs, among the calls of enrollment. -/
abbrev Likened (b : Build) (token token' : Text) (Q : α → β → Prop) (x : EnrollAction α)
    (y : EnrollAction β) : Prop :=
  Alike (fun w op answer w' => told token w (.inr (.inl op)) answer w')
    (fun w op answer w' => told token' w (.inr (.inl op)) answer w')
    (fun e e' => SameButToken b token token' e.inl.inr e'.inl.inr) (Matching Q) x.run y.run

/-- The call does not ask for the token. -/
def IsDeaf : EnrollOp → Prop
  | .enrollmentToken => False
  | _ => True

theorem told_of_deaf (w : Computer) (op : EnrollOp) (answer : op.Answer) (w' : Computer)
    (hop : IsDeaf op) (h : told token w (.inr (.inl op)) answer w') :
    told token' w (.inr (.inl op)) answer w' := by
  refine ⟨h.1, ?_⟩
  cases op with
  | enrollmentToken => exact hop.elim
  | _ => trivial

/-- What does not go by the token is the same in both runs. -/
theorem likened_self {x : EnrollAction α} (hx : x.run.Calls IsDeaf) :
    Likened b token token' Eq x x := alike_action hx told_of_deaf fun _ => .same _

theorem likened_ask (op : EnrollOp) (hop : IsDeaf op) :
    Likened b token token' Eq (ask op) (ask op) := likened_self (calls_perform hop)

theorem likened_check (r : Except Error α) :
    Likened b token token' Eq (Action.ofExcept r) (Action.ofExcept r) := likened_self trivial

theorem eq_of_matching {ε : Type} {r r' : Except ε α} (h : Matching Eq r r') : r = r' := by
  cases r with
  | ok a =>
    cases r' with
    | ok a' => exact congrArg Except.ok h
    | error e => exact h.elim
  | error e =>
    cases r' with
    | ok a' => exact h.elim
    | error e' => exact congrArg Except.error h

/-- The requests differ in the token only. -/
def Reworded (token token' : Text) (request request' : EnrollmentRequest) : Prop :=
  request = { request with enrollmentToken := token } ∧
    request' = { request with enrollmentToken := token' }

variable {p : Platform}

/-- Two computations that go on alike from one result. -/
theorem matching_bind {γ δ : Type} {Q : γ → δ → Prop} (r : Except Error α) {f : α → Except Error γ}
    {g : α → Except Error δ} (h : ∀ a, Matching Q (f a) (g a)) :
    Matching Q (r >>= f) (r >>= g) := by
  cases r with
  | ok a => exact h a
  | error e => exact rfl

theorem createEnrollmentRequest_reworded (hvalid : validateToken token = .ok ())
    (hvalid' : validateToken token' = .ok ()) (hostname : Text) (keypair : MachineKeypair) :
    Matching (Reworded token token') (createEnrollmentRequest p token hostname keypair)
      (createEnrollmentRequest p token' hostname keypair) := by
  unfold createEnrollmentRequest
  rw [hvalid, hvalid']
  refine matching_bind _ fun _ => matching_bind _ fun _ => matching_bind _ fun publicKey =>
    matching_bind _ fun _ => ?_
  exact ⟨rfl, rfl⟩

/-- The client is told the same, whichever token it presents. -/
theorem clientEnroll_likened (hserializes : Serializes b) {request request' : EnrollmentRequest}
    (hreworded : Reworded token token' request request') (serverUrl : Text) :
    Likened b token token' Eq (clientEnroll b.toPlatform serverUrl request)
      (clientEnroll b.toPlatform serverUrl request') := by
  obtain ⟨hrequest, hrequest'⟩ := hreworded
  obtain ⟨body, hbody⟩ := Option.ne_none_iff_exists'.mp (hserializes request)
  obtain ⟨body', hbody'⟩ := Option.ne_none_iff_exists'.mp (hserializes request')
  unfold clientEnroll
  rw [hbody, hbody']
  intro w answer w₁ henv
  refine ⟨answer, ⟨henv.1, trivial⟩, ?_, ?_⟩
  · rw [hrequest] at hbody
    rw [hrequest'] at hbody'
    exact .presented w w₁ _ answer hbody hbody'
  · exact likened_self (x := do
      let response ← Action.ofExcept answer
      Action.ofExcept (rejectIf (isSuccess response.status = false) .enrollmentRejected)
      let parsed ← Action.ofExcept (okOr (b.responseFromJson response.body) .enrollmentRejected)
      let _ ← ask (.setLastResponse parsed)
      pure parsed)
      (calls_bind trivial fun _ => calls_bind trivial fun _ => calls_bind trivial fun _ =>
        calls_bind (calls_perform trivial) fun _ => trivial)

theorem deaf_of_onDisk (op : EnrollOp) (h : Attempts.OnDisk op) : IsDeaf op := by
  cases op with
  | enrollmentToken => exact h.elim
  | _ => trivial

theorem deaf_pinBundleSigningKey (config : Config) (key : Option Text) :
    (pinBundleSigningKey config key).run.Calls IsDeaf := by
  unfold pinBundleSigningKey
  split
  · trivial
  split
  · trivial
  refine calls_bind (calls_perform trivial) fun answer => calls_bind trivial fun existing => ?_
  split
  · trivial
  · exact calls_bind (calls_perform trivial) fun _ => calls_bind trivial fun _ => trivial

theorem enroll_likened (hserializes : Serializes b) (hvalid : validateToken token = .ok ())
    (hvalid' : validateToken token' = .ok ()) (serverUrl hostname : Text) :
    Likened b token token' Eq (enroll b.toPlatform serverUrl token hostname)
      (enroll b.toPlatform serverUrl token' hostname) := by
  refine (likened_ask (.isFile .record) trivial).andThen fun found _ hfound => ?_
  obtain rfl := hfound
  split
  · exact rfl
  refine (likened_check _).andThen fun _ _ _ => ?_
  rw [hvalid, hvalid']
  refine (likened_check (.ok ())).andThen fun _ _ _ => (likened_check _).andThen fun _ _ _ => ?_
  refine (likened_self (Attempts.ends_loadOrGenerateKeypair.calls.mono deaf_of_onDisk)).andThen
    fun keypair _ hkeypair => ?_
  obtain rfl := hkeypair
  refine Alike.andThen (Q := Reworded token token')
    (createEnrollmentRequest_reworded hvalid hvalid' hostname keypair)
    fun request request' hreworded => ?_
  refine (clientEnroll_likened hserializes hreworded serverUrl).andThen
    fun response _ hresponse => ?_
  obtain rfl := hresponse
  exact likened_self ((Attempts.ends_persistMachineIdentity serverUrl hostname keypair
    response).calls.mono deaf_of_onDisk)

theorem attemptEnrollment_likened (hserializes : Serializes b)
    (hvalid : validateToken token = .ok ()) (hvalid' : validateToken token' = .ok ())
    (config : Config) (hostname : Text) : Likened b token token' Eq
      (attemptEnrollment b.toPlatform config token hostname)
      (attemptEnrollment b.toPlatform config token' hostname) := by
  refine (alike_attempt (enroll_likened hserializes hvalid hvalid' config.serverUrl
    hostname)).andThen fun r r' hr => ?_
  obtain rfl := eq_of_matching hr
  refine likened_self ?_
  split
  · trivial
  · exact Attempts.ends_loadMachineIdentity.calls.mono deaf_of_onDisk
  · trivial

theorem retryWithBackoff_likened {op op' : EnrollAction MachineIdentity}
    (hop : Likened b token token' Eq op op') (fuel : Nat) :
    ∀ (attempt : UInt32) (lastErr : Option Error), Likened b token token' Eq
      (retryWithBackoff op attempt lastErr fuel) (retryWithBackoff op' attempt lastErr fuel) := by
  induction fuel with
  | zero => exact fun _ _ => trivial
  | succ fuel ih =>
    intro attempt lastErr
    refine (likened_ask .shutdownRequested trivial).andThen fun seen _ hseen => ?_
    obtain rfl := hseen
    split
    · exact rfl
    refine (alike_attempt hop).andThen fun r r' hr => ?_
    obtain rfl := eq_of_matching hr
    split
    · exact rfl
    refine (likened_ask .shutdownRequested trivial).andThen fun seen _ hseen => ?_
    obtain rfl := hseen
    split
    · exact rfl
    exact (likened_ask (.sleep _) trivial).andThen fun _ _ _ => ih _ _

theorem ensureEnrolled_likened (hserializes : Serializes b)
    (hvalid : validateToken token = .ok ()) (hvalid' : validateToken token' = .ok ())
    (config : Config) (hostname : Text) (fuel : Nat) : Likened b token token' Eq
      (ensureEnrolled b.toPlatform config hostname fuel)
      (ensureEnrolled b.toPlatform config hostname fuel) := by
  refine (likened_ask (.isFile .record) trivial).andThen fun found _ hfound => ?_
  obtain rfl := hfound
  split
  · exact likened_self (Attempts.ends_loadMachineIdentity.calls.mono deaf_of_onDisk)
  have htoken : Likened b token token' (fun t t' => t = some token ∧ t' = some token')
      (ask .enrollmentToken) (ask .enrollmentToken) := by
    intro w answer w₁ henv
    obtain ⟨hliving, rfl⟩ := henv
    exact ⟨some token', ⟨hliving, rfl⟩, .heard w w₁, rfl, rfl⟩
  refine htoken.andThen fun t t' ht => ?_
  obtain ⟨rfl, rfl⟩ := ht
  refine Alike.andThen (Q := fun t t' => t = token ∧ t' = token')
    (x := Action.ofExcept (okOr (some token) .invalidToken))
    (y := Action.ofExcept (okOr (some token') .invalidToken)) ⟨rfl, rfl⟩ fun t t' ht => ?_
  obtain ⟨rfl, rfl⟩ := ht
  rw [hvalid, hvalid']
  refine (likened_check (.ok ())).andThen fun _ _ _ => ?_
  refine (likened_ask .connect trivial).andThen fun client _ hclient => ?_
  obtain rfl := hclient
  refine (likened_check _).andThen fun _ _ _ => ?_
  refine (retryWithBackoff_likened (attemptEnrollment_likened hserializes hvalid hvalid' config
    hostname) fuel 0 none).andThen fun identity _ hidentity => ?_
  obtain rfl := hidentity
  refine (likened_ask .lastResponse trivial).andThen fun answer _ hanswer => ?_
  obtain rfl := hanswer
  refine likened_self ?_
  split
  · exact calls_bind (deaf_pinBundleSigningKey config _) fun _ => trivial
  · trivial

end Enrolling

section Processes

variable {token token' : Text} {d : Heartbeats.Daemon}

/-- The call does not ask for the token. -/
def Deaf : agentSignature.Op → Prop
  | .inr (.inl op) => IsDeaf op
  | _ => True

theorem deaf_daemonAction (x : Heartbeats.DaemonAction α) : (daemonAction x).run.Calls Deaf :=
  (calls_inl (Program.calls_true x.run) fun _ _ => trivial).bind fun _ => trivial

theorem deaf_askChecked (op : HostOp) (check : op.Answer → Except Error α) :
    (askChecked op check).run.Calls Deaf := calls_bind (calls_perform trivial) fun _ => trivial

theorem deaf_enrollAction {x : EnrollAction α} (hx : x.run.Calls IsDeaf) :
    (enrollAction x).run.Calls Deaf :=
  (calls_inr (calls_inl hx (Q := fun op => Deaf (.inr op)) fun _ h => h) fun _ h => h).bind
    fun _ => trivial

theorem deaf_polling (status : Heartbeats.RuntimeStatus) (op : Scheduling.LoopOp) :
    (polling d status op).Calls Deaf := by
  cases op with
  | act action =>
    refine (calls_inl (Program.calls_true _) fun _ _ => trivial).bind fun result => ?_
    cases result <;> trivial
  | now => exact ⟨trivial, fun _ => trivial⟩
  | nextDelay action interval => exact ⟨trivial, fun _ => trivial⟩
  | isRequested => exact ⟨trivial, fun _ => trivial⟩
  | threadSleep chunk => exact ⟨trivial, fun _ => trivial⟩
  | _ => trivial

theorem deaf_loopAction (status : Heartbeats.RuntimeStatus) (x : Scheduling.LoopAction Unit α) :
    (loopAction d status x).run.Calls Deaf := by
  refine (calls_handle (I := fun _ => True) (P := fun _ => True) (fun status op _ _ =>
    ⟨deaf_polling status op, Budgets.yields_of_all (fun _ => trivial) _⟩)
    (Program.calls_true _) trivial).1.bind fun r => ?_
  obtain ⟨r, next⟩ := r
  cases r <;> trivial

theorem deaf_goOn (state : AppState) (host : Heartbeats.HostFacts) (identity : MachineIdentity)
    (fuel : Nat) :
    (goOn b state host identity fuel).run.Calls Deaf := by
  have hkeypair : (enrollAction (readKeypair b.toPlatform)).run.Calls Deaf :=
    deaf_enrollAction (Attempts.ends_readKeypair.calls.mono deaf_of_onDisk)
  refine calls_bind (deaf_enrollAction (calls_perform trivial)) fun seen => ?_
  split
  · trivial
  refine calls_bind ?_ fun recovered => ?_
  · refine calls_bind hkeypair fun _ => calls_bind hkeypair fun _ => ?_
    refine calls_bind (deaf_daemonAction _) fun _ => calls_bind (deaf_daemonAction _) fun _ => ?_
    refine calls_bind (deaf_askChecked _ _) fun _ => calls_bind (deaf_askChecked _ _) fun _ => ?_
    refine calls_bind (deaf_daemonAction _) fun _ => ?_
    exact calls_bind (deaf_loopAction _ _) fun _ => trivial
  · refine calls_bind (deaf_daemonAction _) fun _ => calls_bind (deaf_daemonAction _) fun _ => ?_
    refine calls_bind (deaf_daemonAction _) fun _ => calls_bind (deaf_loopAction _ _) fun _ => ?_
    exact deaf_daemonAction _

/-- What does not ask for the token is the same in both processes. -/
theorem process_self {x : AgentAction α} (hx : x.run.Calls Deaf) :
    Alike (told token) (told token') (SameButToken b token token') (Matching Eq) x.run x.run := by
  refine alike_action hx (fun w op answer w₁ hop henv => ⟨henv.1, ?_⟩) fun _ => .same _
  rcases op with op | op | op
  · trivial
  · exact (told_of_deaf w op answer w₁ hop henv).2
  · trivial

theorem enrollAction_alike (hserializes : Serializes b) (hvalid : validateToken token = .ok ())
    (hvalid' : validateToken token' = .ok ()) (config : Config) (hostname : Text) (fuel : Nat) :
    Alike (told token) (told token') (SameButToken b token token') (Matching Eq)
      (enrollAction (ensureEnrolled b.toPlatform config hostname fuel)).run
      (enrollAction (ensureEnrolled b.toPlatform config hostname fuel)).run := by
  refine (ensureEnrolled_likened hserializes hvalid hvalid' config hostname fuel).inl.inr.bind
    fun r r' hr => ?_
  obtain rfl := eq_of_matching hr
  exact matching_eq

theorem deaf_ensureStateDir : ensureStateDir.run.Calls Deaf :=
  calls_bind (deaf_askChecked _ _) fun _ => calls_bind (deaf_askChecked _ _) fun _ =>
    deaf_askChecked _ _

theorem deaf_installSignalHandlers : installSignalHandlers.run.Calls Deaf :=
  calls_bind (deaf_askChecked _ _) fun _ => deaf_askChecked _ _

theorem enrolledStart_alike (hserializes : Serializes b) (hvalid : validateToken token = .ok ())
    (hvalid' : validateToken token' = .ok ()) (state : AppState) (fuel : Nat) :
    Alike (told token) (told token') (SameButToken b token token') (Matching Eq)
      (enrolledStart b state fuel).run (enrolledStart b state fuel).run := by
  unfold enrolledStart
  refine (process_self deaf_ensureStateDir).andThen fun _ _ _ => ?_
  refine (process_self deaf_installSignalHandlers).andThen fun _ _ _ => ?_
  refine (process_self (x := askHost .hostFacts) ⟨trivial, fun _ => trivial⟩).andThen
    fun host _ hhost => ?_
  obtain rfl := hhost
  refine (enrollAction_alike hserializes hvalid hvalid' _ _ _).andThen
    fun identity _ hidentity => ?_
  obtain rfl := hidentity
  exact rfl

theorem run_alike (hserializes : Serializes b) (hvalid : validateToken token = .ok ())
    (hvalid' : validateToken token' = .ok ()) (state : AppState) (enrollFuel pollFuel : Nat) :
    Alike (told token) (told token') (SameButToken b token token') (Matching Eq)
      (run b state enrollFuel pollFuel).run (run b state enrollFuel pollFuel).run := by
  unfold run
  refine (enrolledStart_alike hserializes hvalid hvalid' state enrollFuel).andThen
    fun started _ hstarted => ?_
  obtain rfl := hstarted
  obtain ⟨host, identity⟩ := started
  exact process_self (deaf_goOn state host identity pollFuel)

/-- A process with another token goes through the same computers to the same end, and of its events
only those differ that hear the token or present it to the server. -/
theorem token_stays_secret (hserializes : Serializes b) (hvalid : validateToken token = .ok ())
    (hvalid' : validateToken token' = .ok ()) {state : AppState} {enrollFuel pollFuel : Nat}
    {w w' : Computer} {trace : List (AgentEvent Computer)} {result : Option (Except Ending Unit)}
    (h : Exec (told token) (run b state enrollFuel pollFuel).run w trace result w') :
    ∃ trace', Exec (told token') (run b state enrollFuel pollFuel).run w trace' result w' ∧
      List.Forall₂ (SameButToken b token token') trace trace' := by
  obtain ⟨trace', result', hexec, htraces, hresults⟩ :=
    alike_exec (run_alike hserializes hvalid hvalid' state enrollFuel pollFuel) h
  refine ⟨trace', ?_, htraces⟩
  cases hresults with
  | none => exact hexec
  | some hresult =>
    obtain rfl := eq_of_matching hresult
    exact hexec

end Processes

def fresh : Computer := ⟨EnrollmentRuns.emptyMachine, none, false⟩

def served : Except Error HttpResponse := .error .caBundleTransport

def presents : AgentEvent Computer → Bool
  | ⟨_, .inr (.inl (.postJson _ _)), _, _⟩ => true
  | _ => false

theorem fresh_presents : (play (sampleAnswer served)
    (run sampleBuild (sampleState none) 1 2).run fresh).1.any presents = true := by
  decide +kernel

theorem sampleAnswer_told (w : Computer) (op : agentSignature.Op)
    (answer : agentSignature.Answer op) (w' : Computer)
    (h : sampleAnswer served w op = some (answer, w')) :
    told EnrollmentRuns.sampleToken w op answer w' := by
  refine ⟨sampleAnswer_living served w op answer w' h, ?_⟩
  rcases op with op | op | op
  · trivial
  · cases op with
    | enrollmentToken =>
      obtain ⟨rfl, rfl⟩ := Prod.mk.inj (Option.some.inj h)
      rfl
    | _ => trivial
  · trivial

theorem otherToken_valid : validateToken (text "mf_enroll_another") = .ok () := by decide +kernel

theorem token_stays_secret_sample : ∃ trace result w', trace.any presents = true ∧
    Exec (told EnrollmentRuns.sampleToken) (run sampleBuild (sampleState none) 1 2).run fresh trace
      result w' ∧
    ∃ trace', Exec (told (text "mf_enroll_another")) (run sampleBuild (sampleState none) 1 2).run
        fresh trace' result w' ∧
      List.Forall₂ (SameButToken sampleBuild EnrollmentRuns.sampleToken (text "mf_enroll_another"))
        trace trace' := by
  have hserializes : Serializes sampleBuild := fun request h => by cases h
  have hexec := exec_play sampleAnswer_told (run sampleBuild (sampleState none) 1 2).run fresh
  exact ⟨_, _, _, fresh_presents, hexec,
    token_stays_secret hserializes EnrollmentRuns.sampleToken_valid otherToken_valid hexec⟩

end MayflyAgent.TokenSecrecy
