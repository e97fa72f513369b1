import MayflyAgent.ConfigSources
import MayflyAgent.SignedUrls

/-!
What a configuration is loaded from. A load succeeds with the configuration that has every field
from its variable, or else from the file, when all its fields pass their checks. A load that fails
names a field, in one of few words that no value of a field goes into, and every other load from
the same sources of that field fails as well.
-/
namespace MayflyAgent.ConfigLoads

open RustText Checks Errors Overrides ConfigSources
open Configs (Config configInvalid)

variable {p : Parsers} {ext : Bundles.Crypto}

/-- What the validation asks of a field. -/
def check (ext : Bundles.Crypto) : Field → FullConfig → Except Error Unit
  | .serverUrl, c => c.validateServerUrl
  | .machineId, c => Configs.validateMachineId c.machineId
  | .heartbeatInterval, c =>
    Configs.validateInterval (text "heartbeat_interval") c.heartbeatInterval
  | .syncInterval, c => Configs.validateInterval (text "sync_interval") c.syncInterval
  | .trustedCaPath, c => Configs.validateManagedPath (text "trusted_ca_path") c.trustedCaPath
  | .sshdConfigPath, c => Configs.validateManagedPath (text "sshd_config_path") c.sshdConfigPath
  | .stateDir, c => Configs.validateManagedPath (text "state_dir") c.stateDir
  | .identityDir, c => Configs.validateManagedPath (text "identity_dir") c.identityDir
  | .helperSocketPath, c =>
    Configs.validateManagedPath (text "helper_socket_path") c.helperSocketPath
  | .helperTokenPath, c => Configs.validateManagedPath (text "helper_token_path") c.helperTokenPath
  | .pollJitterRatio, c => Configs.validateJitterRatio c.pollJitterRatio
  | .bundleSigningPublicKey, c =>
    Configs.validateOptionalSigningKey ext c.bundleSigningPublicKey
  | .tlsCaPath, c =>
    match c.tlsCaPath with
    | some path => Configs.validateManagedPath (text "tls_ca_path") path
    | none => .ok ()
  | .logLevel, _ => .ok ()
  | .logFormat, _ => .ok ()
  | .allowInsecureTls, _ => .ok ()

/-- In the order of the validation. -/
def checked : List Field :=
  [.serverUrl, .machineId, .heartbeatInterval, .syncInterval, .trustedCaPath, .sshdConfigPath,
    .stateDir, .identityDir, .helperSocketPath, .helperTokenPath, .pollJitterRatio,
    .bundleSigningPublicKey, .tlsCaPath]

theorem validate_eq_checkAll (c : FullConfig) :
    c.validate ext = checkAll (fun f => check ext f c) checked := by
  have hlast : ∀ x : Except Error Unit, (x >>= fun _ => (.ok () : Except Error Unit)) = x := by
    intro x
    cases x <;> rfl
  unfold Config.validate checked
  simp only [checkAll, hlast]
  rfl

theorem validate_eq_ok {c : FullConfig} :
    c.validate ext = .ok () ↔ ∀ f, check ext f c = .ok () := by
  rw [validate_eq_checkAll, checkAll_eq_ok]
  refine ⟨fun h f => ?_, fun h f _ => h f⟩
  by_cases hf : f ∈ checked
  · exact h f hf
  · cases f <;> first | rfl | exact absurd (by decide) hf

/-- The fields that the check of a field looks at. -/
def concerns : Field → List Field
  | .serverUrl => [.serverUrl, .allowInsecureTls]
  | f => [f]

theorem check_congr {f : Field} {c c' : FullConfig} (h : ∀ g ∈ concerns f, g.view c = g.view c') :
    check ext f c = check ext f c' := by
  have hf : f.view c = f.view c' := h f (by cases f <;> exact List.mem_cons_self ..)
  cases f with
  | serverUrl =>
    have hallow : c.allowInsecureTls = c'.allowInsecureTls := h .allowInsecureTls (by decide)
    unfold Field.view at hf
    simp only [check, Config.validateServerUrl, hf, hallow]
  | _ =>
    unfold Field.view at hf
    simp only [check, hf]

/-! What a load says of a field that it rejects. No value goes into these words. -/

def intervalReasons (name : Text) : List Text :=
  [name ++ text " must be a non-negative integer",
    name ++ text " must be at least " ++ decimal Configs.minIntervalSecs ++ text " second(s)",
    name ++ text " must be at most " ++ decimal Configs.maxIntervalSecs ++ text " seconds"]

def pathReasons (name : Text) : List Text :=
  [name ++ text " must not be empty", name ++ text " must be an absolute path",
    name ++ text " must not contain '..' components"]

def reasons : Field → List Text
  | .serverUrl =>
    [text "server_url must not be empty",
      text "server_url must not have leading/trailing whitespace",
      text "server_url must include a host",
      text "server_url must use https unless allow_insecure_tls is set",
      text "server_url must use http or https"]
  | .machineId =>
    [text "machine_id must not be empty", text "machine_id is too long",
      text "machine_id may only contain ASCII letters, digits, '-', '_' and '.'"]
  | .heartbeatInterval => intervalReasons (text "heartbeat_interval")
  | .syncInterval => intervalReasons (text "sync_interval")
  | .bundleSigningPublicKey =>
    [text "bundle_signing_public_key must not be empty when set",
      text "bundle_signing_public_key is not a valid Ed25519 key"]
  | .pollJitterRatio =>
    [text "poll_jitter_ratio" ++ text " must be a number",
      text "poll_jitter_ratio must be between 0.0 and 1.0"]
  | .logLevel => [text "log_level is not a valid level"]
  | .logFormat => [text "log_format must be 'json' or 'pretty'"]
  | .allowInsecureTls => [text "allow_insecure_tls" ++ text " must be a boolean"]
  | f => pathReasons f.name

theorem mem_fields (f : Field) : f ∈ fields := by
  cases f <;> decide

theorem fields_nodup : fields.Nodup := by decide

theorem intervalReasons_name {name reason : Text} (h : reason ∈ intervalReasons name) :
    name ++ text " " <+: reason := by
  unfold intervalReasons at h
  revert reason
  simp [List.prefix_append_right_inj, text]

theorem pathReasons_name {name reason : Text} (h : reason ∈ pathReasons name) :
    name ++ text " " <+: reason := by
  unfold pathReasons at h
  revert reason
  simp [List.prefix_append_right_inj, text]

/-- The reasons of a field begin with its name. -/
theorem reason_names {f : Field} {reason : Text} (h : reason ∈ reasons f) :
    f.name ++ text " " <+: reason := by
  revert reason
  cases f with
  | heartbeatInterval | syncInterval => exact intervalReasons_name
  | serverUrl | machineId | bundleSigningPublicKey | pollJitterRatio | logLevel | logFormat
    | allowInsecureTls => simp [reasons, Field.name, text]
  | _ => exact pathReasons_name

/-- A check that fails with one of these reasons. -/
def FailsIn (words : List Text) {α : Type} (x : Except Error α) : Prop :=
  ∀ e, x = .error e → ∃ reason ∈ words, e = configInvalid reason

section FailsIn

variable {words : List Text} {α β : Type}

theorem failsIn_ok (a : α) : FailsIn words (.ok a : Except Error α) := by
  intro e h
  cases h

theorem failsIn_error {reason : Text} (h : reason ∈ words) :
    FailsIn words (.error (configInvalid reason) : Except Error α) := by
  intro e he
  exact ⟨reason, h, (Except.error.inj he).symm⟩

theorem failsIn_rejectIf {bad : Prop} [Decidable bad] {reason : Text} (h : reason ∈ words) :
    FailsIn words (rejectIf bad (configInvalid reason)) := by
  unfold rejectIf
  by_cases hbad : bad
  · rw [if_pos hbad]
    exact failsIn_error h
  · rw [if_neg hbad]
    exact failsIn_ok ()

theorem failsIn_okOr {o : Option α} {reason : Text} (h : reason ∈ words) :
    FailsIn words (okOr o (configInvalid reason)) := by
  cases o with
  | none => exact failsIn_error h
  | some a => exact failsIn_ok a

theorem failsIn_bind {x : Except Error α} {k : α → Except Error β} (hx : FailsIn words x)
    (hk : ∀ a, FailsIn words (k a)) : FailsIn words (x >>= k) := by
  cases x with
  | error e' =>
    intro e he
    exact hx e (congrArg Except.error (Except.error.inj he))
  | ok a => exact hk a

theorem failsIn_interval {name : Text} (value : Nat) :
    FailsIn (intervalReasons name) (Configs.validateInterval name value) := by
  unfold Configs.validateInterval intervalReasons
  refine failsIn_bind (failsIn_rejectIf ?_) fun _ => failsIn_rejectIf ?_
  · simp only [List.mem_cons, true_or, or_true]
  · simp only [List.mem_cons, true_or, or_true]

theorem failsIn_path {name : Text} (path : Text) :
    FailsIn (pathReasons name) (Configs.validateManagedPath name path) := by
  unfold Configs.validateManagedPath pathReasons
  refine failsIn_bind (failsIn_rejectIf ?_) fun _ => failsIn_bind (failsIn_rejectIf ?_) fun _ =>
    failsIn_rejectIf ?_
  · simp only [List.mem_cons, true_or]
  · simp only [List.mem_cons, true_or, or_true]
  · simp only [List.mem_cons, true_or, or_true]

theorem failsIn_parseU64 (name value : Text) :
    FailsIn (intervalReasons name) (parseU64 name value) :=
  failsIn_okOr (List.mem_cons_self ..)

end FailsIn

theorem failsIn_serverUrl (c : Config) : FailsIn (reasons .serverUrl) c.validateServerUrl := by
  unfold Config.validateServerUrl
  simp only [reasons]
  refine failsIn_bind (failsIn_rejectIf ?_) fun _ => failsIn_bind (failsIn_rejectIf ?_) fun _ => ?_
  · simp only [List.mem_cons, true_or]
  · simp only [List.mem_cons, true_or, or_true]
  split
  · refine failsIn_rejectIf ?_
    simp only [List.mem_cons, true_or, or_true]
  split
  · refine failsIn_bind (failsIn_rejectIf ?_) fun _ => failsIn_rejectIf ?_
    · simp only [List.mem_cons, true_or, or_true]
    · simp only [List.mem_cons, true_or, or_true]
  · refine failsIn_error ?_
    simp only [List.mem_cons, true_or, or_true]

theorem failsIn_signingKey (key : Option Text) :
    FailsIn (reasons .bundleSigningPublicKey) (Configs.validateOptionalSigningKey ext key) := by
  unfold Configs.validateOptionalSigningKey reasons
  cases key with
  | none => exact failsIn_ok ()
  | some key =>
    refine failsIn_bind (failsIn_rejectIf (List.mem_cons_self ..)) fun _ => ?_
    cases Bundles.validateEd25519PublicKey ext key with
    | ok u => exact failsIn_ok u
    | error e => exact failsIn_error (List.mem_cons_of_mem _ (List.mem_cons_self ..))

theorem failsIn_check (f : Field) (c : FullConfig) : FailsIn (reasons f) (check ext f c) := by
  cases f with
  | serverUrl => exact failsIn_serverUrl c.toConfig
  | machineId =>
    unfold check Configs.validateMachineId reasons
    refine failsIn_bind (failsIn_rejectIf ?_) fun _ => failsIn_bind (failsIn_rejectIf ?_) fun _ =>
      failsIn_rejectIf ?_
    · simp only [List.mem_cons, true_or]
    · simp only [List.mem_cons, true_or, or_true]
    · simp only [List.mem_cons, true_or, or_true]
  | heartbeatInterval => exact failsIn_interval _
  | syncInterval => exact failsIn_interval _
  | bundleSigningPublicKey => exact failsIn_signingKey _
  | pollJitterRatio =>
    simp only [check, Configs.validateJitterRatio]
    cases c.pollJitterRatio with
    | some ratio => exact failsIn_rejectIf (List.mem_cons_of_mem _ (List.mem_cons_self ..))
    | none => exact failsIn_error (List.mem_cons_of_mem _ (List.mem_cons_self ..))
  | tlsCaPath =>
    simp only [check]
    cases c.tlsCaPath with
    | some path => exact failsIn_path path
    | none => exact failsIn_ok ()
  | logLevel => exact failsIn_ok ()
  | logFormat => exact failsIn_ok ()
  | allowInsecureTls => exact failsIn_ok ()
  | _ => exact failsIn_path _

theorem failsIn_parse (f : Field) (value : Text) : FailsIn (reasons f) (f.parse p value) := by
  cases f with
  | heartbeatInterval => exact failsIn_bind (failsIn_parseU64 _ value) fun _ => failsIn_ok _
  | syncInterval => exact failsIn_bind (failsIn_parseU64 _ value) fun _ => failsIn_ok _
  | pollJitterRatio => exact failsIn_okOr (List.mem_cons_self ..)
  | logLevel => exact failsIn_okOr (List.mem_cons_self ..)
  | logFormat => exact failsIn_okOr (List.mem_cons_self ..)
  | allowInsecureTls =>
    unfold Field.parse parseBool
    simp only
    split
    · exact failsIn_ok true
    split
    · exact failsIn_ok false
    · exact failsIn_error (List.mem_cons_self ..)
  | _ => exact failsIn_ok _

/-- The variables, by the field that they override. -/
def environment (getEnv : Text → Option Text) (f : Field) : Option Text := getEnv (key f.suffix)

section Loads

variable {toml : Text} {getEnv : Text → Option Text} {base c : FullConfig} {e : Error}

theorem load_some (hbase : p.fromToml toml = some base) : load p ext (some toml) getEnv =
    ((record p).overrideAll (environment getEnv) fields base >>= fun config =>
      config.validate ext >>= fun _ => pure config) := by
  show fromTomlWithEnv p ext toml getEnv = _
  unfold fromTomlWithEnv
  rw [hbase]
  rfl

/-- What is loaded from a file has every field from its variable, or else from the file. -/
theorem load_eq_ok (hbase : p.fromToml toml = some base) :
    load p ext (some toml) getEnv = .ok c ↔
      (∀ f, (record p).Layered (environment getEnv) f base c) ∧ c.validate ext = .ok () := by
  have hall : (∀ f ∈ fields, (record p).Layered (environment getEnv) f base c) ↔
      ∀ f, (record p).Layered (environment getEnv) f base c :=
    ⟨fun h f => h f (mem_fields f), fun h f _ => h f⟩
  rw [load_some hbase, bind_eq_ok]
  constructor
  · rintro ⟨c', hover, hrest⟩
    obtain ⟨hvalid, hpure⟩ := check_bind_eq_ok.mp hrest
    obtain rfl := pure_eq_ok.mp hpure
    exact ⟨hall.mp (((record p).overrideAll_eq_ok fields_nodup).mp hover).1, hvalid⟩
  · intro ⟨hlayered, hvalid⟩
    refine ⟨c, ((record p).overrideAll_eq_ok fields_nodup).mpr ⟨hall.mpr hlayered, ?_⟩, ?_⟩
    · exact fun f hf => absurd (mem_fields f) hf
    · exact check_bind_eq_ok.mpr ⟨hvalid, rfl⟩

/-- A field has the same variable in two environments, or none and the same value in the files. -/
def SameSources (getEnv getEnv' : Text → Option Text) (base base' : FullConfig) (f : Field) :
    Prop :=
  environment getEnv f = environment getEnv' f ∧
    (environment getEnv f = none → f.view base = f.view base')

/-- Every load fails in which the check of the field finds what it finds in this one. -/
def Rejects (p : Parsers) (ext : Bundles.Crypto) (getEnv : Text → Option Text) (base : FullConfig)
    (f : Field) : Prop :=
  ∀ toml getEnv' base', p.fromToml toml = some base' →
    (∀ g ∈ concerns f, SameSources getEnv getEnv' base base' g) →
      ∀ c, load p ext (some toml) getEnv' ≠ .ok c

theorem self_mem_concerns (f : Field) : f ∈ concerns f := by
  cases f <;> exact List.mem_cons_self ..

theorem rejects_of_parse {f : Field} {value : Text} (hvalue : environment getEnv f = some value)
    (herror : f.parse p value = .error e) : Rejects p ext getEnv base f := by
  intro toml' getEnv' base' hbase' hsame c' hload
  obtain ⟨hlayered, -⟩ := (load_eq_ok hbase').mp hload
  have hf := hlayered f
  unfold Record.Layered at hf
  rw [← (hsame f (self_mem_concerns f)).1, hvalue] at hf
  have hok : f.parse p value = .ok (f.view c') := hf
  rw [herror] at hok
  cases hok

theorem rejects_of_check {f : Field}
    (hlayered : ∀ g, (record p).Layered (environment getEnv) g base c)
    (herror : check ext f c = .error e) : Rejects p ext getEnv base f := by
  intro toml' getEnv' base' hbase' hsame c' hload
  obtain ⟨hlayered', hvalid⟩ := (load_eq_ok hbase').mp hload
  have hviews : ∀ g ∈ concerns f, g.view c = g.view c' := by
    intro g hg
    obtain ⟨hvariable, hfile⟩ := hsame g hg
    exact (hlayered g).view_eq (hlayered' g) hvariable hfile
  have hok := validate_eq_ok.mp hvalid f
  rw [← check_congr hviews, herror] at hok
  cases hok

/-- A load fails for the file, or for a field. The error names the field and tells none of its
values, and there is no load from the same sources of what the check of the field looks at. -/
theorem load_failure {raw : Option Text} (h : load p ext raw getEnv = .error e) :
    (e = .configRead ∧ raw = none) ∨
    (∃ toml, e = .configParse ∧ raw = some toml ∧ p.fromToml toml = none) ∨
    ∃ toml base f, raw = some toml ∧ p.fromToml toml = some base ∧
      (∃ reason ∈ reasons f, e = configInvalid reason ∧ f.name ++ text " " <+: reason) ∧
      Rejects p ext getEnv base f := by
  cases raw with
  | none => exact Or.inl ⟨(Except.error.inj h).symm, rfl⟩
  | some toml =>
    refine Or.inr ?_
    cases hbase : p.fromToml toml with
    | none =>
      refine Or.inl ⟨toml, ?_, rfl, hbase⟩
      have hload : load p ext (some toml) getEnv = .error .configParse := by
        show fromTomlWithEnv p ext toml getEnv = _
        unfold fromTomlWithEnv
        rw [hbase]
        rfl
      exact Except.error.inj (h.symm.trans hload)
    | some base =>
      rw [load_some hbase] at h
      have hnamed : ∀ {f : Field}, (∃ reason ∈ reasons f, e = configInvalid reason) →
          ∃ reason ∈ reasons f, e = configInvalid reason ∧ f.name ++ text " " <+: reason :=
        fun ⟨reason, hreason, he⟩ => ⟨reason, hreason, he, reason_names hreason⟩
      refine Or.inr ⟨toml, base, ?_⟩
      rcases bind_eq_error.mp h with hover | ⟨c, hover, hrest⟩
      · obtain ⟨f, -, value, hvalue, hparse⟩ := (record p).overrideAll_eq_error hover
        exact ⟨f, rfl, hbase, hnamed (failsIn_parse f value e hparse),
          rejects_of_parse hvalue hparse⟩
      · obtain ⟨hlayered, -⟩ := ((record p).overrideAll_eq_ok fields_nodup).mp hover
        have hvalid : c.validate ext = .error e := by
          rcases bind_eq_error.mp hrest with hvalid | ⟨_, _, hpure⟩
          · exact hvalid
          · cases hpure
        rw [validate_eq_checkAll] at hvalid
        obtain ⟨f, -, hcheck⟩ := checkAll_eq_error hvalid
        exact ⟨f, rfl, hbase, hnamed (failsIn_check f c e hcheck),
          rejects_of_check (fun g => hlayered g (mem_fields g)) hcheck⟩

end Loads

def sampleToml : Text :=
  text "server_url = 'https://mayfly.example:8443//'\nmachine_id = 'host-01'\n" ++
    text "poll_jitter_ratio = 0.5"

/-- The file leaves the other fields to their defaults. -/
def sampleBase : FullConfig where
  toConfig := { SignedUrls.configFor SignedUrls.plainUrl with pollJitterRatio := some (1 / 2) }
  logLevel := .info
  logFormat := .json

def sampleParsers : Parsers where
  fromToml toml := if toml = sampleToml then some sampleBase else none
  parseF64 s :=
    if s = text "0.25" then some (some (1 / 4)) else if s = text "NaN" then some none else none

/-- An interval of more than a day. -/
def sampleEnv (name : Text) : Option Text :=
  if name = key (text "HEARTBEAT_INTERVAL") then some (text " 90000 ") else none

def failureOf {α : Type} : Except Error α → Option Error
  | .error e => some e
  | .ok _ => none

theorem load_failure_sample : ∃ f,
    (∃ reason ∈ reasons f, text "heartbeat_interval must be at most 86400 seconds" = reason) ∧
      Rejects sampleParsers BundleValidation.sampleCrypto sampleEnv sampleBase f := by
  have hfails : load sampleParsers BundleValidation.sampleCrypto (some sampleToml) sampleEnv =
      .error (configInvalid (text "heartbeat_interval must be at most 86400 seconds")) := by
    have hfailure : failureOf (load sampleParsers BundleValidation.sampleCrypto (some sampleToml)
        sampleEnv) = some (configInvalid
          (text "heartbeat_interval must be at most 86400 seconds")) := by decide +kernel
    generalize load sampleParsers BundleValidation.sampleCrypto (some sampleToml) sampleEnv = x
      at hfailure ⊢
    cases x with
    | error e => exact congrArg Except.error (Option.some.inj hfailure)
    | ok c => cases hfailure
  rcases load_failure hfails with ⟨he, _⟩ | ⟨_, he, _⟩ | ⟨toml, base, f, htoml, hbase, hnamed, hf⟩
  · cases he
  · cases he
  · obtain rfl := Option.some.inj htoml
    obtain rfl := Option.some.inj ((if_pos rfl).symm.trans hbase)
    obtain ⟨reason, hreason, he, _⟩ := hnamed
    exact ⟨f, ⟨reason, hreason, Error.configInvalid.inj he⟩, hf⟩

def logFormatText : LogFormat → Text
  | .json => text "json"
  | .pretty => text "pretty"

/-- A variable that says what a field is. A cleared field has an empty one. -/
def render (format : ℚ → Text) : Field → FullConfig → Text
  | .serverUrl, c => c.serverUrl
  | .machineId, c => c.machineId
  | .heartbeatInterval, c => decimal (c.heartbeatInterval / 1000000000)
  | .syncInterval, c => decimal (c.syncInterval / 1000000000)
  | .trustedCaPath, c => c.trustedCaPath
  | .sshdConfigPath, c => c.sshdConfigPath
  | .stateDir, c => c.stateDir
  | .identityDir, c => c.identityDir
  | .helperSocketPath, c => c.helperSocketPath
  | .helperTokenPath, c => c.helperTokenPath
  | .bundleSigningPublicKey, c => c.bundleSigningPublicKey.getD []
  | .pollJitterRatio, c => (c.pollJitterRatio.map format).getD []
  | .logLevel, c => c.logLevel.asFilterStr
  | .logFormat, c => logFormatText c.logFormat
  | .allowInsecureTls, c => if c.allowInsecureTls then text "true" else text "false"
  | .tlsCaPath, c => c.tlsCaPath.getD []

/-- The environment that has a variable for every field. -/
def settings (format : ℚ → Text) (c : FullConfig) (name : Text) : Option Text :=
  (fields.find? fun f => name == key f.suffix).map fun f => render format f c

theorem environment_settings (format : ℚ → Text) (c : FullConfig) (f : Field) :
    environment (settings format c) f = some (render format f c) := by
  have hall : (fields.all fun f => (fields.find? fun g => key f.suffix == key g.suffix) == some f)
      = true := by with_unfolding_all decide
  have hf := eq_of_beq (List.all_eq_true.mp hall f (mem_fields f))
  unfold environment settings
  rw [hf]
  rfl

theorem parse_level (level : LogLevel) : LogLevel.parse level.asFilterStr = some level := by
  cases level <;> with_unfolding_all decide

theorem parse_logFormat (format : LogFormat) :
    LogFormat.parse (logFormatText format) = some format := by
  cases format <;> with_unfolding_all decide

theorem parse_bool (name : Text) (b : Bool) :
    parseBool name (if b then text "true" else text "false") = .ok b := by
  have hlower : ∀ b : Bool, toAsciiLowercase (trimText (if b then text "true" else text "false")) =
      if b then text "true" else text "false" := by with_unfolding_all decide
  have hfalse : ¬ (text "false" = text "true" ∨ text "false" = text "1" ∨
      text "false" = text "yes" ∨ text "false" = text "on") := by simp [text]
  unfold parseBool
  rw [hlower b]
  cases b with
  | true => exact if_pos (Or.inl rfl)
  | false => exact (if_neg hfalse).trans (if_pos (Or.inl rfl))

/-- A valid interval is its whole seconds, which fit. -/
theorem parse_interval {name : Text} {value : Nat}
    (h : Configs.validateInterval name value = .ok ()) :
    (parseU64 name (decimal (value / 1000000000)) >>= fun secs =>
      pure (Scheduling.ofSecs secs.toNat)) = .ok value := by
  obtain ⟨hlow, hhigh⟩ := check_bind_eq_ok.mp h
  have hwhole := rejectIf_eq_ok.mp hlow
  have hmax := rejectIf_eq_ok.mp hhigh
  unfold Configs.maxIntervalSecs at hmax
  have hsecs : (UInt64.ofNat (value / 1000000000)).toNat = value / 1000000000 := by
    rw [UInt64.toNat_ofNat']
    exact Nat.mod_eq_of_lt (by omega)
  have hparse : parseU64 name (decimal (value / 1000000000)) =
      .ok (UInt64.ofNat (value / 1000000000)) := by
    unfold ConfigSources.parseU64
    rw [trimText_decimal, ← hsecs, parseU64_decimal, hsecs]
    rfl
  rw [hparse]
  show (.ok (Scheduling.ofSecs (UInt64.ofNat (value / 1000000000)).toNat) : Except Error Nat) = _
  rw [hsecs]
  unfold Scheduling.ofSecs
  have hvalue : value / 1000000000 * 1000000000 = value := by omega
  rw [hvalue]

theorem clearedIfEmpty_getD {o : Option Text} (h : ∀ t ∈ o, trimText t = t ∧ t ≠ []) :
    clearedIfEmpty (o.getD []) = o := by
  unfold clearedIfEmpty
  cases o with
  | none => rfl
  | some t =>
    obtain ⟨htrim, hne⟩ := h t rfl
    show (if trimText t = [] then none else some (trimText t)) = _
    rw [htrim, if_neg hne]

/-- Each field of a valid configuration is read back from its variable. -/
theorem parse_render {c : FullConfig} {format : ℚ → Text} (hvalid : c.validate ext = .ok ())
    (hkey : ∀ t ∈ c.bundleSigningPublicKey, trimText t = t)
    (hpath : ∀ t ∈ c.tlsCaPath, trimText t = t)
    (hformat : ∀ r ∈ c.pollJitterRatio, p.parseF64 (trimText (format r)) = some (some r))
    (f : Field) : f.parse p (render format f c) = .ok (f.view c) := by
  have hcheck := validate_eq_ok.mp hvalid f
  cases f with
  | heartbeatInterval => exact parse_interval hcheck
  | syncInterval => exact parse_interval hcheck
  | bundleSigningPublicKey =>
    refine congrArg Except.ok (clearedIfEmpty_getD fun t ht => ⟨hkey t ht, ?_⟩)
    intro hnil
    simp only [check, Option.mem_def.mp ht] at hcheck
    refine rejectIf_eq_ok.mp (check_bind_eq_ok.mp hcheck).1 ?_
    rw [hkey t ht, hnil]
  | tlsCaPath =>
    refine congrArg Except.ok (clearedIfEmpty_getD fun t ht => ⟨hpath t ht, ?_⟩)
    simp only [check, Option.mem_def.mp ht] at hcheck
    exact rejectIf_eq_ok.mp (check_bind_eq_ok.mp hcheck).1
  | pollJitterRatio =>
    simp only [check] at hcheck
    cases hratio : c.pollJitterRatio with
    | none =>
      rw [hratio] at hcheck
      cases hcheck
    | some r =>
      simp only [Field.parse, ConfigSources.parseF64, render, Field.view, hratio, Option.map_some,
        Option.getD_some]
      rw [hformat r hratio]
      rfl
  | logLevel =>
    simp only [Field.parse, render, parse_level]
    rfl
  | logFormat =>
    simp only [Field.parse, render, parse_logFormat]
    rfl
  | allowInsecureTls => exact parse_bool _ _
  | _ => rfl

/-- Whatever the file says, the environment alone can set a valid configuration, as long as its
optional fields have no space around them. -/
theorem settings_load {toml : Text} {base c : FullConfig} {format : ℚ → Text}
    (hbase : p.fromToml toml = some base) (hvalid : c.validate ext = .ok ())
    (hkey : ∀ t ∈ c.bundleSigningPublicKey, trimText t = t)
    (hpath : ∀ t ∈ c.tlsCaPath, trimText t = t)
    (hformat : ∀ r ∈ c.pollJitterRatio, p.parseF64 (trimText (format r)) = some (some r)) :
    load p ext (some toml) (settings format c) = .ok c := by
  refine (load_eq_ok hbase).mpr ⟨fun f => ?_, hvalid⟩
  unfold Record.Layered
  rw [environment_settings]
  exact parse_render hvalid hkey hpath hformat f

/-- A configuration that differs from the file in every optional field. -/
def sampleTarget : FullConfig where
  toConfig := { SignedUrls.configFor (text "http://10.0.0.7") with
    heartbeatInterval := Scheduling.ofSecs 86400
    bundleSigningPublicKey := some BundleValidation.golden.signingKey
    pollJitterRatio := some (1 / 4)
    allowInsecureTls := true
    tlsCaPath := some (text "/etc/mayfly-agent/ca.pem") }
  logLevel := .debug
  logFormat := .pretty

def sampleFormat (r : ℚ) : Text := if r = 1 / 4 then text "0.25" else []

theorem settings_load_sample : load sampleParsers BundleValidation.sampleCrypto (some sampleToml)
    (settings sampleFormat sampleTarget) = .ok sampleTarget := by
  refine settings_load (if_pos rfl) (by decide +kernel) ?_ ?_ ?_
  · intro t ht
    obtain rfl := Option.some.inj ht
    decide +kernel
  · intro t ht
    obtain rfl := Option.some.inj ht
    decide +kernel
  · intro r hr
    obtain rfl := Option.some.inj hr
    decide +kernel

end MayflyAgent.ConfigLoads
