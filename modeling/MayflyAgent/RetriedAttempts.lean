import MayflyAgent.Attempts
import MayflyAgent.Configs
import MayflyAgent.EnrollmentRuns
import MayflyAgent.Handlers

/-!
What an attempt to enroll can come to as far as the configured URL decides it. A call is answered in
any way that the machine or the server may answer it, only the HTTP client delivers no request to a
URL that it cannot use. An attempt can succeed when some answers lead it to its end, and the loop
goes on with the same attempt whatever its prospects are.
-/
namespace MayflyAgent.RetriedAttempts

open RustText Programs Contracts Checks Errors Bundles CaSync Enrollment EnrollmentRuns Attempts
open Configs (configInvalid)

/-- The errors that a call outside the agent may be answered with. -/
def Outside (op : EnrollOp) (answer : op.Answer) : Prop :=
  match op, answer with
  | .secureWrite _ _ _, answer => answer = .ok () ∨ WriteFails answer
  | .writeState _ _ _, answer => answer = .ok () ∨ WriteFails answer
  | .postJson _ _, answer => ∀ e, answer = .error e → e = .enrollmentTransport
  | .connect, answer => ∀ e, answer = .error e →
    e = .enrollmentTransport ∨ e = .io ∨ ∃ reason, e = configInvalid reason
  | _, _ => True

/-- A request reaches the server only where the HTTP client can use its URL. -/
def Delivers (usable : Text → Prop) (op : EnrollOp) (answer : op.Answer) : Prop :=
  match op, answer with
  | .postJson url _, .ok _ => usable url
  | _, _ => True

/-- Everything that may be answered with such a client. -/
def answering (usable : Text → Prop) : Environment enrollSignature Unit :=
  fun _ op answer _ => Outside op answer ∧ Delivers usable op answer

/-- Some answers lead the action to this outcome. -/
def Can {α : Type} (usable : Text → Prop) (x : EnrollAction α) (r : Except Error α) : Prop :=
  ∃ trace, Exec (answering usable) x.run () trace (some r) ()

def CanSucceed (usable : Text → Prop) (p : Platform) (serverUrl token hostname : Text) : Prop :=
  ∃ identity, Can usable (enroll p serverUrl token hostname) (.ok identity)

/-- OpenSSH and JSON write what enrollment has for them, and there are responses to accept. -/
structure Serves (p : Platform) : Prop where
  key : ∃ seed pem line, p.privateKeyToOpenssh ⟨seed, keyComment⟩ = some pem ∧
    p.publicKeyToOpenssh ⟨seed, keyComment⟩ = some line ∧
      validateEd25519PublicKey p.toCrypto line = .ok ()
  request : ∀ request, ∃ body, p.requestToJson request = some body
  response : ∃ body response, p.responseFromJson body = some response ∧
    validateResponse p.toCrypto response = .ok ()
  record : ∀ record, ∃ json, p.recordToJson record = some json

section Possible

variable {α β : Type} {usable : Text → Prop} {p : Platform} {serverUrl token hostname : Text}

theorem Can.andThen {x : EnrollAction α} {f : α → EnrollAction β} {a : α} {r : Except Error β}
    (hx : Can usable x (.ok a)) (hf : Can usable (f a) r) : Can usable (x >>= f) r := by
  obtain ⟨first, hfirst⟩ := hx
  obtain ⟨second, hsecond⟩ := hf
  exact ⟨first ++ second, hfirst.action_bind hsecond⟩

theorem Can.failed {x : EnrollAction α} {f : α → EnrollAction β} {e : Error}
    (hx : Can usable x (.error e)) : Can usable (x >>= f) (.error e) := by
  obtain ⟨trace, hexec⟩ := hx
  refine ⟨trace ++ [], ?_⟩
  rw [run_bind]
  exact hexec.bind (Exec.finished _ _)

theorem Can.attempt {x : EnrollAction α} {r : Except Error α} (hx : Can usable x r) :
    Can usable x.attempt (.ok r) := by
  obtain ⟨trace, hexec⟩ := hx
  exact ⟨trace ++ [], hexec.bind (Exec.finished _ _)⟩

theorem can_done (r : Except Error α) : Can usable (Action.ofExcept r) r :=
  ⟨[], Exec.finished _ _⟩

theorem can_ask (op : EnrollOp) (answer : op.Answer) (h : Outside op answer)
    (hdelivers : Delivers usable op answer) : Can usable (ask op) (.ok answer) :=
  ⟨_, Exec.step ⟨h, hdelivers⟩ (Exec.finished _ _)⟩

theorem can_pass {r : Except Error α} {f : α → EnrollAction β} {a : α} {s : Except Error β}
    (hr : r = .ok a) (hf : Can usable (f a) s) : Can usable (Action.ofExcept r >>= f) s := by
  subst hr
  exact (can_done (.ok a)).andThen hf

theorem can_write (file : IdentityFile) (contents : Bytes) (mode : UInt32) :
    Can usable (secureWrite file contents mode) (.ok ()) := by
  refine Can.andThen (can_ask (.secureWrite file contents mode) (.ok ()) (Or.inl rfl) trivial) ?_
  exact can_done _

theorem can_miss (file : IdentityFile) : Can usable (pathExists file) (.ok false) := by
  refine Can.andThen (can_ask (.symlinkMetadata file) (.error .notFound) trivial trivial) ?_
  exact can_done (.ok false)

/-- On a machine without key files a key can be made. -/
theorem can_generate (seed : Option (Vector UInt8 32)) {r : Except Error MachineKeypair}
    (hr : Can usable (Action.ofExcept (okOr seed .keyGeneration) >>= fun seed => do
      writeKeypair p ⟨seed, keyComment⟩
      pure ⟨seed, keyComment⟩) r) : Can usable (loadOrGenerateKeypair p) r := by
  refine (can_miss .privateKey).andThen ?_
  refine (can_miss .privateKey).andThen ?_
  refine (can_miss .publicKey).andThen ?_
  exact (can_ask .generateKey seed trivial trivial).andThen hr

theorem canSucceed_of_usable (hserves : Serves p) (hurl : validateServerUrl serverUrl = .ok ())
    (htoken : validateToken token = .ok ()) (hhost : validateHostname hostname = .ok ())
    (husable : usable (joinUrl serverUrl enrollPath)) :
    CanSucceed usable p serverUrl token hostname := by
  obtain ⟨seed, pem, line, hpem, hline, hkey⟩ := hserves.key
  obtain ⟨body, response, hparsed, hresponse⟩ := hserves.response
  have hpublic : publicKeyOpenssh p ⟨seed, keyComment⟩ = .ok line := okOr_eq_ok.mpr hline
  have hkeypair : Can usable (loadOrGenerateKeypair p) (.ok ⟨seed, keyComment⟩) := by
    have hwritten : Can usable (writeKeypair p ⟨seed, keyComment⟩) (.ok ()) :=
      can_pass (okOr_eq_ok.mpr hpem) ((can_write ..).andThen (can_pass hpublic (can_write ..)))
    exact can_generate (some seed) (can_pass rfl (hwritten.andThen (can_done (.ok _))))
  obtain ⟨request, hrequest⟩ : ∃ request, createEnrollmentRequest p token hostname
      ⟨seed, keyComment⟩ = .ok request := by
    refine ⟨⟨token, hostname, p.os, p.arch, p.agentVersion, line⟩, ?_⟩
    refine check_bind_eq_ok.mpr ⟨htoken, check_bind_eq_ok.mpr ⟨hhost, ?_⟩⟩
    exact bind_eq_ok.mpr ⟨line, hpublic, check_bind_eq_ok.mpr ⟨hkey, rfl⟩⟩
  obtain ⟨json, hjson⟩ := hserves.request request
  have hclient : Can usable (clientEnroll p serverUrl request) (.ok response) := by
    refine can_pass (okOr_eq_ok.mpr hjson) ?_
    refine Can.andThen (can_ask (.postJson (joinUrl serverUrl enrollPath) json)
      (.ok ⟨200, body⟩) nofun husable) ?_
    refine can_pass rfl (can_pass rfl (can_pass (okOr_eq_ok.mpr hparsed) ?_))
    exact (can_ask (.setLastResponse response) () trivial trivial).andThen (can_done (.ok _))
  have hpersist : ∃ identity, Can usable
      (persistMachineIdentity p serverUrl hostname ⟨seed, keyComment⟩ response) (.ok identity) := by
    refine ⟨⟨response.machineId, hostname, line, 0, serverUrl, response.heartbeatInterval,
      response.syncInterval⟩, can_pass hurl (can_pass hhost (can_pass hresponse ?_))⟩
    refine can_pass hpublic ((can_ask .now (0 : Time) trivial trivial).andThen ?_)
    obtain ⟨json, hjson⟩ := hserves.record _
    exact (can_pass (okOr_eq_ok.mpr hjson) (can_write ..)).andThen (can_done (.ok _))
  obtain ⟨identity, hidentity⟩ := hpersist
  refine ⟨identity, ?_⟩
  refine (can_ask (.isFile .record) false trivial trivial).andThen ?_
  refine can_pass hurl (can_pass htoken (can_pass hhost ?_))
  exact hkeypair.andThen (can_pass hrequest (hclient.andThen hidentity))

/-- No random bytes, no key, and the attempt fails. -/
theorem can_fail (config : Config) (hurl : validateServerUrl config.serverUrl = .ok ())
    (htoken : validateToken token = .ok ()) (hhost : validateHostname hostname = .ok ()) :
    Can usable (attemptEnrollment p config token hostname) (.error .keyGeneration) := by
  have hkeypair : Can usable (loadOrGenerateKeypair p) (.error .keyGeneration) :=
    can_generate none (can_done (.error .keyGeneration)).failed
  have henroll : Can usable (enroll p config.serverUrl token hostname) (.error .keyGeneration) := by
    refine (can_ask (.isFile .record) false trivial trivial).andThen ?_
    exact can_pass hurl (can_pass htoken (can_pass hhost hkeypair.failed))
  exact henroll.attempt.andThen (can_done _)

/-- Some answers bring the action to a sleep. -/
def Waits (usable : Text → Prop) (x : EnrollAction α) : Prop :=
  ∃ trace, Exec (answering usable) x.run () trace none () ∧
    ∃ e ∈ trace, ∃ attempt, e.op = .sleep attempt

theorem Can.waits {x : EnrollAction α} {f : α → EnrollAction β} {a : α}
    (hx : Can usable x (.ok a)) (hf : Waits usable (f a)) : Waits usable (x >>= f) := by
  obtain ⟨first, hfirst⟩ := hx
  obtain ⟨second, hsecond, e, he, hsleep⟩ := hf
  exact ⟨first ++ second, hfirst.action_bind hsecond, e, List.mem_append_right _ he, hsleep⟩

theorem Waits.first {x : EnrollAction α} {f : α → EnrollAction β} (hx : Waits usable x) :
    Waits usable (x >>= f) := by
  obtain ⟨trace, hexec, hsleep⟩ := hx
  exact ⟨trace, hexec.killed_action, hsleep⟩

/-- The loop waits when an attempt has failed, whatever it failed for. -/
theorem waits_retry {op : EnrollAction α} {e : Error} (hop : Can usable op (.error e))
    (fuel : Nat) : Waits usable (retryWithBackoff op 0 none (fuel + 1)) := by
  rw [retryWithBackoff_succ]
  refine (can_ask .shutdownRequested false trivial trivial).waits ?_
  refine hop.attempt.waits ?_
  refine (can_ask .shutdownRequested false trivial trivial).waits ?_
  have hsleep : Waits usable (ask (.sleep (nextAttempt 0))) :=
    ⟨[⟨(), .sleep (nextAttempt 0), (), ()⟩], Exec.step ⟨trivial, trivial⟩ (Exec.killed _ _),
      _, List.mem_cons_self .., _, rfl⟩
  exact hsleep.first

theorem waits_ensureEnrolled (config : Config) (fuel : Nat)
    (hurl : validateServerUrl config.serverUrl = .ok ())
    (htoken : validateToken token = .ok ()) (hhost : validateHostname hostname = .ok ()) :
    Waits usable (ensureEnrolled p config hostname (fuel + 1)) := by
  refine (can_ask (.isFile .record) false trivial trivial).waits ?_
  refine (can_ask .enrollmentToken (some token) trivial trivial).waits ?_
  refine (can_done (.ok token)).waits ?_
  refine Can.waits (a := ()) (htoken ▸ can_done _) ?_
  refine (can_ask .connect (.ok ()) nofun trivial).waits ?_
  refine (can_done (.ok ())).waits ?_
  exact (waits_retry (can_fail config hurl htoken hhost) fuel).first

end Possible

/-- This token was read from the environment. -/
def TokenRead {W : Type} (trace : List (EnrollEvent W)) (token : Text) : Prop :=
  ∃ v v', (⟨v, .enrollmentToken, (some token : Option Text), v'⟩ : EnrollEvent W) ∈ trace

/-- In front of a sleep a valid token was read. -/
def TokenFirst {W : Type} (past : List (EnrollEvent W)) (e : EnrollEvent W) : Prop :=
  ∀ attempt, e.op = .sleep attempt → ∃ token, TokenRead past token ∧ validateToken token = .ok ()

section Contract

variable {W α β : Type} {env : Environment enrollSignature W} {C : EnrollOp → Prop} {p : Platform}

/-- A contract of the calls that an action makes and of what it returns. -/
def Only (C : EnrollOp → Prop) (env : Environment enrollSignature W) (x : EnrollAction α)
    (Q : α → Prop) : Prop :=
  Meets env (fun _ e => C e.op) (fun _ _ => True) x.run
    (Returns (fun _ _ _ => True) fun a _ _ => Q a)

theorem only_ask {op : EnrollOp} (hop : C op) : Only C env (ask op) fun _ => True :=
  meets_perform fun _ _ _ _ _ _ => ⟨hop, trivial⟩

theorem only_calls {x : EnrollAction α} (h : x.run.Calls C) : Only C env x fun _ => True :=
  meets_keeps_action h fun _ _ _ _ _ hop _ _ => ⟨hop, trivial⟩

theorem Only.andThen {x : EnrollAction α} {f : α → EnrollAction β} {Q : α → Prop}
    {R : β → Prop} (hx : Only C env x Q) (hf : ∀ a, Q a → Only C env (f a) R) :
    Only C env (x >>= f) R :=
  Meets.andThen hx fun a => meets_of_fact (fun _ _ ha => ha) fun ha =>
    (hf a ha).pre fun _ _ _ => trivial

theorem only_check {r : Except Error α} {f : α → EnrollAction β} {R : β → Prop}
    (hf : ∀ a, Only C env (f a) R) : Only C env (Action.ofExcept r >>= f) R :=
  meets_ofExcept_bind (fun _ _ _ _ _ => trivial) fun a _ => hf a

theorem only_throw {e : Error} {Q : α → Prop} : Only C env (throw e) Q :=
  meets_throw fun _ _ _ => trivial

/-- The loop goes on as long as the attempts fail. -/
theorem retry_in_vain {op : EnrollAction α} (hshutdown : C .shutdownRequested)
    (hsleep : ∀ attempt, C (.sleep attempt)) (hop : Only C env op fun _ => False) (fuel : Nat) :
    ∀ attempt lastErr, Only C env (retryWithBackoff op attempt lastErr fuel) fun _ => False := by
  induction fuel with
  | zero => exact fun _ _ => meets_running
  | succ fuel ih =>
    intro attempt lastErr
    rw [retryWithBackoff_succ]
    refine (only_ask hshutdown).andThen fun requested _ => ?_
    cases requested with
    | true => exact only_throw
    | false =>
      refine Meets.andThen hop.attempt fun outcome => ?_
      cases outcome with
      | ok value => exact meets_of_fact (fun _ _ h => h) False.elim
      | error err =>
        refine (only_ask hshutdown).andThen fun requested _ => ?_
        cases requested with
        | true => exact only_throw
        | false => exact (only_ask (hsleep _)).andThen fun _ _ => ih _ _

/-- Without a URL that the client can use no attempt succeeds. -/
theorem not_canSucceed {usable : Text → Prop} {serverUrl token hostname : Text}
    (hbad : ¬ usable (joinUrl serverUrl enrollPath)) :
    ¬ CanSucceed usable p serverUrl token hostname := by
  have hclient : ∀ request, Only (fun _ => True) (answering usable)
      (clientEnroll p serverUrl request) fun _ => False := by
    intro request
    refine only_check fun body => ?_
    have hpost : Only (fun _ => True) (answering usable)
        (ask (.postJson (joinUrl serverUrl enrollPath) body))
        fun answer => ∃ e, answer = .error e := by
      refine meets_perform fun _ w answer w' _ henv => ⟨trivial, ?_⟩
      cases answer with
      | ok response => exact absurd henv.2 hbad
      | error e => exact ⟨e, rfl⟩
    refine hpost.andThen fun answer ⟨e, he⟩ => ?_
    rw [he]
    exact only_throw
  have henroll : Only (fun _ => True) (answering usable) (enroll p serverUrl token hostname)
      fun _ => False := by
    refine (only_ask trivial).andThen fun enrolled _ => ?_
    split
    · exact only_throw
    refine only_check fun _ => only_check fun _ => only_check fun _ => ?_
    refine (only_calls (Program.calls_true _)).andThen fun keypair _ => only_check fun request => ?_
    exact (hclient request).andThen fun _ h => h.elim
  rintro ⟨identity, trace, hexec⟩
  exact (henroll [] () trace _ () trivial hexec).2 _ rfl

/-- From where a valid token was read nothing has to be watched any more. -/
theorem meets_behind_token {α : Type} {token : Text} (x : EnrollAction α)
    (hvalid : validateToken token = .ok ()) :
    Meets env TokenFirst (fun past _ => TokenRead past token) x.run
      (Returns (fun _ _ _ => True) fun _ _ _ => True) := by
  have hkeeps : Meets env TokenFirst (fun past _ => TokenRead past token) x.run
      (Returns (fun _ past _ => TokenRead past token) fun _ past _ => TokenRead past token) := by
    refine meets_keeps_action (Program.calls_true x.run) fun past w op answer w' _ hread _ => ?_
    obtain ⟨v, v', hmem⟩ := hread
    exact ⟨fun _ _ => ⟨token, ⟨v, v', hmem⟩, hvalid⟩, v, v', List.mem_append_left _ hmem⟩
  refine hkeeps.post fun r _ _ _ => ?_
  cases r <;> trivial

theorem meets_ensureEnrolled (config : Config) (hostname : Text) (fuel : Nat) :
    Meets env TokenFirst (fun _ _ => True) (ensureEnrolled p config hostname fuel).run
      (Returns (fun _ _ _ => True) fun _ _ _ => True) := by
  have hrecord : Meets env TokenFirst (fun _ _ => True) isEnrolled.run
      (Returns (fun _ _ _ => True) fun _ _ _ => True) :=
    meets_perform fun _ _ _ _ _ _ => ⟨nofun, trivial⟩
  refine hrecord.andThen fun enrolled => ?_
  cases enrolled with
  | true =>
    refine meets_keeps_action (ends_loadMachineIdentity (p := p)).calls ?_
    intro past w op answer w' hop _ _
    refine ⟨?_, trivial⟩
    rintro attempt rfl
    exact hop.elim
  | false =>
    have hasked : Meets env TokenFirst (fun _ _ => True) (ask .enrollmentToken).run
        (Returns (fun _ _ _ => True) fun answer past _ => ∀ token, answer = some token →
          TokenRead past token) := by
      refine meets_perform fun past w answer w' _ _ => ⟨nofun, ?_⟩
      rintro token rfl
      exact ⟨w, w', List.mem_append_right _ (List.mem_singleton_self _)⟩
    refine hasked.andThen fun answer => ?_
    refine meets_ofExcept_bind (fun _ _ _ _ _ => trivial) fun token htoken => ?_
    refine meets_ofExcept_bind (fun _ _ _ _ _ => trivial) fun _ hvalid => ?_
    exact (meets_behind_token _ hvalid).pre fun _ _ hread => hread token (okOr_eq_ok.mp htoken)

/-- What is retried was started with a valid token. -/
theorem sleeps_with_token {config : Config} {hostname : Text} {fuel : Nat} {w w' : W}
    {trace : List (EnrollEvent W)} {result : Option (Except Error MachineIdentity)}
    (hexec : Exec env (ensureEnrolled p config hostname fuel).run w trace result w')
    {e : EnrollEvent W} (he : e ∈ trace) {attempt : UInt32} (hsleep : e.op = .sleep attempt) :
    ∃ token, TokenRead trace token ∧ validateToken token = .ok () := by
  obtain ⟨first, rest, rfl⟩ := List.append_of_mem he
  have hfirst : TokenFirst first e :=
    (meets_ensureEnrolled config hostname fuel [] w _ result w' trivial hexec).1.middle
  obtain ⟨token, ⟨v, v', hread⟩, hvalid⟩ := hfirst attempt hsleep
  exact ⟨token, ⟨v, v', List.mem_append_left _ hread⟩, hvalid⟩

end Contract

end MayflyAgent.RetriedAttempts
