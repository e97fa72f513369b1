import MayflyAgent.RetriedAttempts
import MayflyAgent.SignedUrls

/-!
Whether a machine with an accepted configuration can enroll. The configuration also allows
plain HTTP when it is told to, enrollment never does. A daemon with such a URL tries again and
again, and no attempt gets as far as a key or a request. A URL that the HTTP client cannot use
passes both validations, and is tried again and again as well.
-/
namespace MayflyAgent.ConfiguredEnrollment

open RustText Programs Contracts Checks Errors Bundles StateFiles CaSync Enrollment
open EnrollmentRuns Attempts RetriedAttempts
open Configs (stripPrefix_eq_some stripPrefix_eq_none accepted_url validateServerUrl_of_validate)

/-- A call that sends something or changes a file. -/
def Reaches : EnrollOp → Prop
  | .postJson _ _ | .secureWrite _ _ _ | .writeState _ _ _ => True
  | _ => False

/-- The URL that an attempt sends its request to. -/
def requestUrl (config : Configs.Config) : Text := joinUrl config.serverUrl enrollPath

variable (usable : Text → Prop) (p : Platform) (config : Configs.Config)

/-- Neither an attempt nor the start of the daemon fails for the configured URL, and the start only
waits for another attempt where that one can succeed. -/
structure Enrollable : Prop where
  attempt : ∀ (W : Type) (env : Environment enrollSignature W), (∀ w op answer w',
    env w op answer w' → Outside op answer) → ∀ token hostname,
      Avoids env .invalidServerUrl (enroll p config.serverUrl token hostname)
  start : ∀ (W : Type) (env : Environment enrollSignature W), (∀ w op answer w',
    env w op answer w' → Outside op answer) → ∀ hostname fuel,
      Avoids env .invalidServerUrl (ensureEnrolled p config.forEnrollment hostname fuel)
  retry : ∀ (W : Type) (env : Environment enrollSignature W) hostname fuel w trace result w',
    validateHostname hostname = .ok () →
    Exec env (ensureEnrolled p config.forEnrollment hostname fuel).run w trace result w' →
      ∀ e ∈ trace, ∀ attempt, e.op = .sleep attempt → ∃ token, TokenRead trace token ∧
        CanSucceed usable p config.serverUrl token hostname

/-- While there is no record, the start of the daemon only ends in an error, if it ends at all. -/
def Doomed : Prop :=
  ∀ (W : Type) (env : Environment enrollSignature W), (∀ w answer w',
    env w (.isFile .record) answer w' → answer = false) → ∀ hostname fuel w trace result w',
      Exec env (ensureEnrolled p config.forEnrollment hostname fuel).run w trace result w' →
        (∀ identity, result ≠ some (.ok identity)) ∧ ∀ e ∈ trace, ¬ Reaches e.op

variable {usable p config}

theorem validateServerUrl_cases (url : Text) :
    validateServerUrl url = .ok () ∨ validateServerUrl url = .error .invalidServerUrl := by
  unfold validateServerUrl rejectIf okOr
  by_cases htrim : url ≠ trimText url
  · exact Or.inr (by rw [if_pos htrim]; rfl)
  rw [if_neg htrim]
  cases stripPrefix (text "https://") url with
  | none => exact Or.inr rfl
  | some host =>
    by_cases hhost : host = []
    · exact Or.inr (by subst hhost; rfl)
    · refine Or.inl ?_
      change (if host = [] then Except.error Error.invalidServerUrl else .ok ()) = .ok ()
      rw [if_neg hhost]

theorem https_of_accepted (h : config.validateServerUrl = .ok ()) :
    validateServerUrl config.serverUrl = .ok () ↔
      ∃ host, config.serverUrl = text "https://" ++ host := by
  constructor
  · intro haccepts
    obtain ⟨_, hrest⟩ := check_bind_eq_ok.mp haccepts
    obtain ⟨host, hhost, _⟩ := bind_eq_ok.mp hrest
    exact ⟨host, stripPrefix_eq_some.mp (okOr_eq_ok.mp hhost)⟩
  · rintro ⟨host, hhttps⟩
    obtain ⟨htrim, host', hne, hscheme⟩ := accepted_url h
    have hhost : config.serverUrl = text "https://" ++ host' := by
      rcases hscheme with hsame | ⟨hhttp, _⟩
      · exact hsame
      · have hletter := congrArg (fun s : Text => s[4]?) (hhttps.symm.trans hhttp)
        rw [List.getElem?_append_left (by simp [text]),
          List.getElem?_append_left (by simp [text])] at hletter
        exact absurd hletter (by simp [text])
    refine check_bind_eq_ok.mpr ⟨rejectIf_eq_ok.mpr (not_not.mpr htrim.symm), ?_⟩
    refine bind_eq_ok.mpr ⟨host', okOr_eq_ok.mpr (stripPrefix_eq_some.mpr hhost), ?_⟩
    exact rejectIf_eq_ok.mpr hne

section Avoiding

variable {W α : Type} {env : Environment enrollSignature W}

theorem avoids_ask {op : EnrollOp} {f : op.Answer → Except Error α} {e : Error}
    (h : ∀ w answer w', env w op answer w' → f answer ≠ .error e) :
    Avoids env e (ask op >>= fun answer => Action.ofExcept (f answer)) :=
  avoids_perform_bind fun w answer w' henv => avoids_ofExcept (h w answer w' henv)

theorem avoids_pathExists (file : IdentityFile) {e : Error} : Avoids env e (pathExists file) :=
  avoids_perform_bind fun _ _ _ _ => avoids_pure

theorem avoids_lstat (file : IdentityFile) {e : Error} (h : .io ≠ e) :
    Avoids env e (lstat file) :=
  avoids_ask fun _ _ _ _ => mapError_ne_error fun _ => h

theorem avoids_readOrFail (file : IdentityFile) {e : Error} (h : .io ≠ e) :
    Avoids env e (readOrFail file) :=
  avoids_ask fun _ _ _ _ => mapError_ne_error fun _ => h

theorem avoids_readKeypair : Avoids env .invalidServerUrl (readKeypair p) := by
  have hsymlink : Avoids env .invalidServerUrl (isSymlink .privateKey) := by
    refine avoids_ask fun _ answer _ _ => ?_
    rcases answer with (_ | _) | _ <;> exact nofun
  have hchecked : ∀ (bad : Metadata → Prop) [∀ metadata, Decidable (bad metadata)] (e : Error),
      e ≠ .invalidServerUrl → Avoids env .invalidServerUrl
        (lstat .privateKey >>= fun metadata => Action.ofExcept (rejectIf (bad metadata) e)) := by
    intro bad _ e he
    have hlook : Avoids env .invalidServerUrl (lstat .privateKey) := avoids_lstat _ nofun
    exact hlook.bind fun _ => avoids_ofExcept (rejectIf_ne_error he)
  refine Avoids.bind ?_ fun _ => ?_
  · have hreal : Avoids env .invalidServerUrl (ensureNotSymlink .privateKey) :=
      hsymlink.bind fun _ => avoids_ofExcept (rejectIf_ne_error nofun)
    refine Avoids.bind hreal fun _ => ?_
    refine Avoids.bind (hchecked _ _ nofun) fun _ => ?_
    exact Avoids.bind (hchecked _ _ nofun) fun _ => hchecked _ _ nofun
  refine Avoids.bind (avoids_readOrFail _ nofun) fun bytes => ?_
  refine Avoids.bind (avoids_ofExcept (okOr_ne_error nofun)) fun pem => ?_
  exact avoids_ofExcept (fromOpensshPrivate_ne nofun)

theorem avoids_loadMachineIdentity : Avoids env .invalidServerUrl (loadMachineIdentity p) := by
  refine Avoids.bind avoids_readKeypair fun keypair => ?_
  refine Avoids.bind (avoids_ofExcept (publicKeyOpenssh_ne nofun)) fun publicKey => ?_
  refine Avoids.bind ?_ fun record => ?_
  · refine Avoids.bind (avoids_readOrFail _ nofun) fun bytes => ?_
    exact avoids_ofExcept (okOr_ne_error nofun)
  · exact avoids_ofExcept (bind_ne_error (okOr_ne_error nofun) fun _ => pure_ne_error)

/-- The loop never ends with an error that neither its attempts nor the error before them have. -/
theorem avoids_retry {op : EnrollAction α} {e : Error} (hop : Avoids env e op)
    (htransport : .enrollmentTransport ≠ e) (fuel : Nat) :
    ∀ attempt lastErr, lastErr ≠ some e →
      Avoids env e (retryWithBackoff op attempt lastErr fuel) := by
  induction fuel with
  | zero =>
    intro _ _ _ w trace w' h
    cases h
  | succ fuel ih =>
    intro attempt lastErr hlast
    rw [retryWithBackoff_succ]
    refine avoids_perform_bind fun _ requested _ _ => ?_
    cases requested with
    | true =>
      refine avoids_throw ?_
      cases lastErr with
      | none => exact htransport
      | some err => exact fun heq => hlast (congrArg some heq)
    | false =>
      refine avoids_attempt_bind hop fun outcome houtcome => ?_
      cases outcome with
      | ok value => exact avoids_pure
      | error err =>
        have herr : err ≠ e := fun heq => houtcome (heq ▸ rfl)
        refine avoids_perform_bind fun _ requested _ _ => ?_
        cases requested with
        | true => exact avoids_throw herr
        | false =>
          refine avoids_perform_bind fun _ _ _ _ => ?_
          exact ih _ _ fun heq => herr (Option.some.inj heq)

variable (houtside : ∀ w op answer w', env w op answer w' → Outside op answer)
include houtside

theorem avoids_secureWrite (file : IdentityFile) (contents : Bytes) (mode : UInt32) :
    Avoids env .invalidServerUrl (secureWrite file contents mode) := by
  refine avoids_ask fun w answer w' henv => ?_
  rcases houtside _ _ _ _ henv with rfl | rfl | rfl <;> exact nofun

theorem avoids_loadOrGenerateKeypair :
    Avoids env .invalidServerUrl (loadOrGenerateKeypair p) := by
  refine Avoids.bind (avoids_pathExists _) fun found => ?_
  split
  · exact avoids_readKeypair
  refine Avoids.bind (avoids_pathExists _) fun found => ?_
  split
  · exact avoids_throw nofun
  refine Avoids.bind (avoids_pathExists _) fun found => ?_
  split
  · exact avoids_throw nofun
  refine avoids_perform_bind fun _ seed _ _ => ?_
  refine Avoids.bind (avoids_ofExcept (okOr_ne_error nofun)) fun seed => ?_
  refine Avoids.bind ?_ fun _ => avoids_pure
  refine Avoids.bind (avoids_ofExcept (okOr_ne_error nofun)) fun pem => ?_
  refine Avoids.bind (avoids_secureWrite houtside _ _ _) fun _ => ?_
  refine Avoids.bind (avoids_ofExcept (publicKeyOpenssh_ne nofun)) fun line => ?_
  exact avoids_secureWrite houtside _ _ _

theorem avoids_clientEnroll (serverUrl : Text) (request : EnrollmentRequest) :
    Avoids env .invalidServerUrl (clientEnroll p serverUrl request) := by
  refine Avoids.bind (avoids_ofExcept (okOr_ne_error nofun)) fun body => ?_
  refine avoids_perform_bind fun w answer w' henv => ?_
  have hanswer : answer ≠ .error .invalidServerUrl :=
    fun herror => nomatch houtside _ _ _ _ henv _ herror
  refine Avoids.bind (avoids_ofExcept hanswer) fun response => ?_
  refine Avoids.bind (avoids_ofExcept (rejectIf_ne_error nofun)) fun _ => ?_
  refine Avoids.bind (avoids_ofExcept (okOr_ne_error nofun)) fun parsed => ?_
  exact avoids_perform_bind fun _ _ _ _ => avoids_pure

theorem avoids_persistMachineIdentity {serverUrl : Text} (hostname : Text)
    (keypair : MachineKeypair) (response : EnrollmentResponse)
    (hurl : validateServerUrl serverUrl = .ok ()) : Avoids env .invalidServerUrl
      (persistMachineIdentity p serverUrl hostname keypair response) := by
  refine Avoids.bind (avoids_ofExcept (hurl ▸ nofun)) fun _ => ?_
  refine Avoids.bind (avoids_ofExcept (validateHostname_ne nofun)) fun _ => ?_
  refine Avoids.bind (avoids_ofExcept (validateResponse_ne nofun)) fun _ => ?_
  refine Avoids.bind (avoids_ofExcept (publicKeyOpenssh_ne nofun)) fun publicKey => ?_
  refine avoids_perform_bind fun _ now _ _ => ?_
  refine Avoids.bind ?_ fun _ => avoids_pure
  refine Avoids.bind (avoids_ofExcept (okOr_ne_error nofun)) fun json => ?_
  exact avoids_secureWrite houtside _ _ _

theorem avoids_enroll {serverUrl : Text} (token hostname : Text)
    (hurl : validateServerUrl serverUrl = .ok ()) :
    Avoids env .invalidServerUrl (enroll p serverUrl token hostname) := by
  refine avoids_perform_bind fun _ enrolled _ _ => ?_
  split
  · exact avoids_throw nofun
  refine Avoids.bind (avoids_ofExcept (hurl ▸ nofun)) fun _ => ?_
  refine Avoids.bind (avoids_ofExcept (validateToken_ne nofun)) fun _ => ?_
  refine Avoids.bind (avoids_ofExcept (validateHostname_ne nofun)) fun _ => ?_
  refine Avoids.bind (avoids_loadOrGenerateKeypair houtside) fun keypair => ?_
  refine Avoids.bind (avoids_ofExcept (createEnrollmentRequest_ne nofun nofun nofun nofun))
    fun request => ?_
  refine Avoids.bind (avoids_clientEnroll houtside _ _) fun response => ?_
  exact avoids_persistMachineIdentity houtside hostname keypair response hurl

theorem avoids_attemptEnrollment (token hostname : Text)
    (hurl : validateServerUrl config.serverUrl = .ok ()) : Avoids env .invalidServerUrl
      (attemptEnrollment p config.forEnrollment token hostname) := by
  refine avoids_attempt_bind (avoids_enroll houtside token hostname hurl) fun result hresult => ?_
  split
  · exact avoids_pure
  · exact avoids_loadMachineIdentity
  · exact avoids_throw fun heq => hresult (heq ▸ rfl)

theorem avoids_pinBundleSigningKey (key : Option Text) :
    Avoids env .invalidServerUrl (pinBundleSigningKey config.forEnrollment key) := by
  unfold pinBundleSigningKey
  split
  · exact avoids_pure
  split
  · exact avoids_pure
  refine avoids_perform_bind fun _ pinned _ _ => ?_
  have hpinned : stringOf pinned ≠ .error .invalidServerUrl := by
    refine bind_ne_error ?_ fun bytes => ?_
    · intro herror
      rcases pinned with (_ | _) | _ <;> cases herror
    · cases bytes with
      | none =>
        intro herror
        cases herror
      | some bytes =>
        intro herror
        dsimp only at herror
        split at herror
        · cases herror
        · split at herror <;> cases herror
  refine Avoids.bind (avoids_ofExcept hpinned) fun existing => ?_
  split
  · exact avoids_pure
  refine avoids_perform_bind fun w answer w' henv => ?_
  refine Avoids.bind (avoids_ofExcept ?_) fun _ => avoids_pure
  intro herror
  rcases houtside _ _ _ _ henv with rfl | rfl | rfl <;> cases herror

theorem avoids_ensureEnrolled (hostname : Text) (fuel : Nat)
    (hurl : validateServerUrl config.serverUrl = .ok ()) :
    Avoids env .invalidServerUrl (ensureEnrolled p config.forEnrollment hostname fuel) := by
  refine avoids_perform_bind fun _ enrolled _ _ => ?_
  split
  · exact avoids_loadMachineIdentity
  refine avoids_perform_bind fun _ token _ _ => ?_
  refine Avoids.bind (avoids_ofExcept (okOr_ne_error nofun)) fun token => ?_
  refine Avoids.bind (avoids_ofExcept (validateToken_ne nofun)) fun _ => ?_
  refine avoids_perform_bind fun w client w' henv => ?_
  have hclient : client ≠ .error .invalidServerUrl := by
    intro herror
    rcases houtside _ _ _ _ henv _ herror with h | h | ⟨_, h⟩ <;> cases h
  refine Avoids.bind (avoids_ofExcept hclient) fun _ => ?_
  have hattempt := avoids_attemptEnrollment (p := p) houtside token hostname hurl
  refine Avoids.bind (avoids_retry hattempt nofun fuel 0 none nofun) fun identity => ?_
  refine avoids_perform_bind fun _ response _ _ => ?_
  split
  · exact (avoids_pinBundleSigningKey houtside _).bind fun _ => avoids_pure
  · exact avoids_pure

end Avoiding

theorem enrollable_of_accepted (hserves : Serves p)
    (hurl : validateServerUrl config.serverUrl = .ok ()) (husable : usable (requestUrl config)) :
    Enrollable usable p config where
  attempt _ _ houtside token hostname := avoids_enroll houtside token hostname hurl
  start _ _ houtside hostname fuel := avoids_ensureEnrolled houtside hostname fuel hurl
  retry := by
    intro W env hostname fuel w trace result w' hhost hexec e he attempt hsleep
    obtain ⟨token, hread, hvalid⟩ := sleeps_with_token hexec he hsleep
    exact ⟨token, hread, canSucceed_of_usable hserves hurl hvalid hhost husable⟩

/-- A machine with a URL that the client cannot use waits for attempts that cannot succeed. -/
theorem usable_of_enrollable (hurl : validateServerUrl config.serverUrl = .ok ())
    (h : Enrollable usable p config) : usable (requestUrl config) := by
  by_contra hbad
  have hhost : validateHostname sampleHost = .ok () := by decide +kernel
  have hwaits : Waits usable (ensureEnrolled p config.forEnrollment sampleHost 1) :=
    waits_ensureEnrolled config.forEnrollment 0 hurl sampleToken_valid hhost
  obtain ⟨trace, hexec, e, he, attempt, hsleep⟩ := hwaits
  obtain ⟨token, _, hcan⟩ := h.retry _ _ _ _ _ _ _ _ hhost hexec e he attempt hsleep
  exact not_canSucceed hbad hcan

/-- An attempt on a machine without a record that enrollment has no URL for. -/
theorem enroll_rejected {serverUrl : Text} (token hostname : Text)
    (hurl : validateServerUrl serverUrl = .error .invalidServerUrl) :
    (enroll p serverUrl token hostname).run = .call (.isFile .record) fun enrolled =>
      .done (.error (cond enrolled .alreadyEnrolled .invalidServerUrl)) := by
  refine congrArg (Program.call (S := enrollSignature) (.isFile .record)) ?_
  refine funext fun enrolled => ?_
  cases enrolled with
  | true => rfl
  | false =>
    change (Action.ofExcept (validateServerUrl serverUrl) >>= _ : EnrollAction _).run = _
    rw [hurl]
    rfl

theorem not_enrollable (hurl : validateServerUrl config.serverUrl = .error .invalidServerUrl) :
    ¬ Enrollable usable p config := by
  intro h
  refine h.attempt Unit (fun _ op answer _ => Outside op answer) (fun _ _ _ _ henv => henv) []
    [] () [⟨(), .isFile .record, false, ()⟩] () ?_
  rw [enroll_rejected _ _ hurl]
  exact Exec.step trivial (Exec.finished _ _)

theorem doomed_of_rejected (hurl : validateServerUrl config.serverUrl = .error .invalidServerUrl) :
    Doomed p config := by
  intro W env habsent hostname fuel w trace result w' hexec
  have hrecord : Only (fun op => ¬ Reaches op) env isEnrolled fun enrolled => enrolled = false :=
    meets_perform fun _ w answer w' _ henv => ⟨id, habsent w answer w' henv⟩
  have hattempt : ∀ token, Only (fun op => ¬ Reaches op) env
      (attemptEnrollment p config.forEnrollment token hostname) fun _ => False := by
    intro token
    have henroll : Meets env (fun _ e => ¬ Reaches e.op) (fun _ _ => True)
        (enroll p config.serverUrl token hostname).run
        (Returns (fun e _ _ => e = .invalidServerUrl) fun _ _ _ => False) := by
      rw [enroll_rejected token hostname hurl]
      refine meets_call (M := fun enrolled _ _ => enrolled = false)
        (fun _ w answer w' _ henv => ⟨id, habsent w answer w' henv⟩) fun enrolled => ?_
      refine meets_done fun _ _ hfalse => ?_
      rw [hfalse]
      rfl
    refine Meets.andThen henroll.attempt fun outcome => ?_
    cases outcome with
    | ok identity => exact meets_of_fact (fun _ _ h => h) False.elim
    | error err =>
      refine meets_of_fact (fun _ _ h => h) ?_
      rintro rfl
      exact meets_throw fun _ _ _ => trivial
  have hstart : Only (fun op => ¬ Reaches op) env
      (ensureEnrolled p config.forEnrollment hostname fuel) fun _ => False := by
    refine hrecord.andThen fun enrolled hfalse => ?_
    rw [hfalse]
    refine (only_ask id).andThen fun token _ => ?_
    refine only_check fun token => only_check fun _ => ?_
    refine (only_ask id).andThen fun client _ => only_check fun _ => ?_
    exact (retry_in_vain id (fun _ => id) (hattempt token) fuel 0 none).andThen fun _ h => h.elim
  obtain ⟨hevents, hresult⟩ := hstart [] w trace result w' trivial hexec
  exact ⟨fun identity hok => hresult _ hok, hevents.forall_mem fun _ _ h => h⟩

/-- An accepted configuration can enroll just when its URL has the scheme `https` and is one that
the HTTP client can use. With another scheme the daemon keeps trying, and never gets as far as a key
or a request. -/
theorem enrollable_iff {ext : Crypto} (hserves : Serves p) (hvalid : config.validate ext = .ok ()) :
    (Enrollable usable p config ↔ (∃ host, config.serverUrl = text "https://" ++ host) ∧
        usable (requestUrl config)) ∧
      ((∀ host, config.serverUrl ≠ text "https://" ++ host) → Doomed p config) := by
  have hhttps := https_of_accepted (validateServerUrl_of_validate hvalid)
  rcases validateServerUrl_cases config.serverUrl with hurl | hurl
  · obtain ⟨host, hhost⟩ := hhttps.mp hurl
    refine ⟨⟨fun h => ⟨⟨host, hhost⟩, usable_of_enrollable hurl h⟩, fun h => ?_⟩,
      fun hnone => absurd hhost (hnone host)⟩
    exact enrollable_of_accepted hserves hurl h.2
  · have hdoomed : Doomed p config := doomed_of_rejected hurl
    refine ⟨⟨fun h => absurd h (not_enrollable hurl), fun h => ?_⟩, fun _ => hdoomed⟩
    have hboth := (hhttps.mpr h.1).symm.trans hurl
    cases hboth

theorem samplePlatform_serves : Serves samplePlatform where
  key := ⟨sampleKeypair.seed, samplePem, samplePublicLine, if_pos rfl, if_pos rfl,
    by decide +kernel⟩
  request _ := ⟨_, rfl⟩
  response := ⟨sampleResponseBody, sampleResponse, if_pos rfl, by decide +kernel⟩
  record _ := ⟨_, rfl⟩

/-- A client that goes by the sample parser. -/
def sampleUsable (url : Text) : Prop := (ParsedUrls.sampleParse url).isSome = true

theorem enrollable_iff_sample :
    Enrollable sampleUsable samplePlatform (SignedUrls.configFor sampleUrl) := by
  have hvalid : (SignedUrls.configFor sampleUrl).validate BundleValidation.sampleCrypto =
      .ok () := by decide +kernel
  have husable : sampleUsable (requestUrl (SignedUrls.configFor sampleUrl)) := by
    unfold sampleUsable
    decide +kernel
  exact (enrollable_iff samplePlatform_serves hvalid).1.mpr
    ⟨⟨text "mayfly.example", by decide +kernel⟩, husable⟩

/-- The sample configuration with a server that is reached without TLS. -/
def plainConfig : Configs.Config :=
  { SignedUrls.configFor (text "http://insecure.example.com") with allowInsecureTls := true }

/-- It is accepted, and no machine enrolls with it, whatever URLs the client can use. -/
theorem plain_not_enrollable : ¬ ∀ (ext : Crypto) (p : Platform) (config : Configs.Config),
    Serves p → config.validate ext = .ok () → Enrollable (fun _ => True) p config := by
  intro h
  have hvalid : plainConfig.validate BundleValidation.sampleCrypto = .ok () := by decide +kernel
  have henrollable := h _ samplePlatform _ samplePlatform_serves hvalid
  exact not_enrollable (by decide +kernel) henrollable

end MayflyAgent.ConfiguredEnrollment
