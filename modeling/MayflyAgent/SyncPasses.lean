import MayflyAgent.CaSync
import MayflyAgent.BundleValidation

/-!
What a single pass can do. A pass first surveys: it loads the state, fetches the
bundle, records the attempt and comes to a decision, and none of this touches more
than the last-sync file. It then settles the decision. The lemmas hold in every
world that has a state directory, whatever else it has and whatever the network,
the helper and the clock answer.
-/
namespace MayflyAgent.SyncPasses

open RustText Programs Checks Errors Bundles BundleValidation TrustedCa StateFiles CaSync

variable {W : Type}

/-- What a call does to the state files: a failed write leaves the old or the new
contents, and nothing but writes changes a file. -/
def FileMoves (before after : StateDir) : (op : SyncOp) → op.Answer → Prop
  | .read file, answer => answer = readEntry (before file) ∧ after = before
  | .secureWrite file contents _, answer =>
    after = before.install file contents ∨
      (∃ e : Error, answer = Except.error e) ∧ after = before
  | _, _ => after = before

/-- The world has a state directory that behaves like one. -/
def Respects (env : Environment syncSignature W) (dir : W → StateDir) : Prop :=
  ∀ w op answer w', env w op answer w' → FileMoves (dir w) (dir w') op answer

def getEvent (w w' : W) (request : HttpRequest) (answer : Except Error HttpResponse) :
    SyncEvent W := ⟨w, .get request, answer, w'⟩

def applyEvent (w w' : W) (contents : Text) (answer : Except Error BundleApplyOutcome) :
    SyncEvent W := ⟨w, .apply contents, answer, w'⟩

def writeEvent (w w' : W) (file : StateFile) (contents : Bytes) (answer : Except Error Unit) :
    SyncEvent W := ⟨w, .secureWrite file contents modePublic, answer, w'⟩

def IsRead : SyncOp → Prop
  | .read _ => True
  | _ => False

def IsSigning : SyncOp → Prop
  | .now => True
  | .randomBytes => True
  | _ => False

/-- A clock reading or the write of one line to one file. -/
def IsStamp (file : StateFile) : SyncOp → Prop
  | .now => True
  | .secureWrite f _ _ => f = file
  | _ => False

/-- Acknowledging is signing and posting. -/
def IsAcknowledging : SyncOp → Prop
  | .post _ => True
  | op => IsSigning op

/-- Pinning writes at most the key of the bundle, and that only without an operator pin. -/
def IsPinning (s : CaSyncService) (bundle : CaBundle) : SyncOp → Prop
  | .secureWrite .signingKey contents _ =>
    s.pinnedSigningKey = none ∧ contents = storedLine bundle.signingPublicKey
  | .secureWrite .lastSuccess _ _ => True
  | .secureWrite _ _ _ => False
  | .get _ => False
  | .post _ => False
  | .apply _ => False
  | _ => True

/-- After an apply every file gets the value of the applied bundle. -/
def IsStoring (s : CaSyncService) (bundle : CaBundle) : SyncOp → Prop
  | .secureWrite .generation contents _ => contents = storedLine (decimal bundle.generation.toNat)
  | .secureWrite .fingerprint contents _ => contents = storedLine bundle.fingerprint
  | .post _ => True
  | op => IsPinning s bundle op

/-- Whatever comes before the decision. -/
def IsSurveying : SyncOp → Prop
  | .secureWrite f _ _ => f = .lastSync
  | .post _ => False
  | .apply _ => False
  | _ => True

variable (s : CaSyncService)

theorem calls_readFile (file : StateFile) : (readFile file).run.Calls IsRead :=
  calls_perform trivial

theorem calls_loadState : loadState.run.Calls IsRead := by
  have hread : ∀ file, (readOptionalString file).run.Calls IsRead := fun file =>
    calls_bind (calls_readFile file) fun _ => trivial
  refine calls_bind (calls_bind (calls_readFile _) fun _ => trivial) fun _ => ?_
  refine calls_bind (hread _) fun _ => calls_bind (hread _) fun _ => trivial

theorem calls_sign (method path : Text) (body : Bytes) :
    (s.sign method path body).run.Calls IsSigning := by
  refine calls_bind (calls_perform trivial) fun _ => ?_
  exact calls_bind (calls_bind (calls_perform trivial) fun _ => trivial) fun _ => trivial

theorem calls_writeTimestamp (file : StateFile) :
    (s.writeTimestamp file).run.Calls (IsStamp file) := by
  refine calls_bind (calls_perform trivial) fun _ => calls_bind trivial fun _ => ?_
  exact calls_bind (calls_perform rfl) fun _ => trivial

theorem calls_acknowledge (report : AckReport) :
    (s.acknowledge report).run.Calls IsAcknowledging := by
  refine calls_bind (calls_attempt ?_) fun _ => trivial
  refine calls_bind trivial fun _ => ?_
  have hsign : ∀ body, (s.sign (text "POST") caBundleAckPath body).run.Calls IsAcknowledging := by
    intro body
    refine (calls_sign s _ _ _).mono fun op hop => ?_
    cases op <;> trivial
  refine calls_bind (hsign _) fun _ => ?_
  exact calls_bind (calls_bind (calls_perform trivial) fun _ => trivial) fun _ => trivial

section Executions

variable {env : Environment syncSignature W} {dir : W → StateDir} (henv : Respects env dir)
variable {w w' : W} {trace : List (SyncEvent W)}

/-- The action answers with a function of the state files and changes none of them. -/
def Reads (env : Environment syncSignature W) (dir : W → StateDir) {α : Type}
    (x : SyncAction α) (f : StateDir → Except Error α) : Prop :=
  ∀ w trace result w', Exec env x.run w trace result w' →
    dir w' = dir w ∧ (result = none ∨ result = some (f (dir w)))

theorem Reads.bind {α β : Type} {x : SyncAction α} {f : StateDir → Except Error α}
    {k : α → SyncAction β} {g : α → StateDir → Except Error β} (hx : Reads env dir x f)
    (hk : ∀ a, Reads env dir (k a) (g a)) :
    Reads env dir (x >>= k) fun d => f d >>= fun a => g a d := by
  intro w trace result w' h
  rcases exec_action_bind h with
    ⟨rfl, hkill⟩ | ⟨e, hresult, herror⟩ | ⟨a, first, second, w₁, _, hfirst, hsecond⟩
  · exact ⟨(hx _ _ _ _ hkill).1, Or.inl rfl⟩
  · obtain ⟨hdir, hnone | hsome⟩ := hx _ _ _ _ herror
    · cases hnone
    · have hf : f (dir w) = .error e := (Option.some.inj hsome).symm
      refine ⟨hdir, hresult.imp id fun hr => ?_⟩
      simp only [hr, hf]
      rfl
  · obtain ⟨hdir, hnone | hsome⟩ := hx _ _ _ _ hfirst
    · cases hnone
    · have hf : f (dir w) = .ok a := (Option.some.inj hsome).symm
      obtain ⟨hdir', hresult⟩ := hk a _ _ _ _ hsecond
      refine ⟨hdir'.trans hdir, hresult.imp id fun hr => ?_⟩
      simp only [hr, hf, hdir]
      rfl

theorem reads_pure {α : Type} (a : α) : Reads env dir (pure a) fun _ => .ok a := by
  intro w trace result w' h
  obtain ⟨_, rfl, hresult⟩ := exec_pure h
  exact ⟨rfl, hresult⟩

include henv in
theorem reads_ask {α : Type} (file : StateFile) (f : Except ReadError Bytes → Except Error α) :
    Reads env dir (readFile file >>= fun answer => Action.ofExcept (f answer))
      fun d => f (readEntry (d file)) := by
  intro w trace result w' h
  rcases exec_ask (S := syncSignature) (.read file) f h with
    ⟨_, rfl, rfl⟩ | ⟨answer, _, hmove, hresult⟩
  · exact ⟨rfl, Or.inl rfl⟩
  · obtain ⟨rfl, hdir⟩ := henv _ _ _ _ hmove
    exact ⟨hdir, hresult⟩

include henv in
theorem reads_loadState : Reads env dir loadState StateDir.load := by
  have hstring : ∀ file, Reads env dir (readOptionalString file) fun d => d.readString file :=
    fun file => reads_ask henv file stringOf
  refine Reads.bind (reads_ask henv _ generationOf) fun generation => ?_
  refine Reads.bind (hstring .fingerprint) fun fingerprint => ?_
  exact Reads.bind (hstring .signingKey) fun signingKey => reads_pure _

theorem FileMoves.file {before after : StateDir} {op : SyncOp} {answer : op.Answer}
    (h : FileMoves before after op answer) (file : StateFile) :
    after file = before file ∨
      ∃ contents mode, op = .secureWrite file contents mode ∧ after file = .regular contents := by
  cases op with
  | secureWrite f contents mode =>
    rcases h with rfl | ⟨_, rfl⟩
    · by_cases hf : file = f
      · subst hf
        exact Or.inr ⟨contents, mode, rfl, install_same ..⟩
      · exact Or.inl (install_other _ _ hf)
    · exact Or.inl rfl
  | read f => exact Or.inl (congrFun h.2 file)
  | now => exact Or.inl (congrFun h file)
  | randomBytes => exact Or.inl (congrFun h file)
  | get request => exact Or.inl (congrFun h file)
  | post request => exact Or.inl (congrFun h file)
  | apply contents => exact Or.inl (congrFun h file)

include henv in
theorem file_unwritten {α : Type} {p : Program syncSignature α} {result : Option α}
    (h : Exec env p w trace result w') (file : StateFile)
    (hops : ∀ e ∈ trace, ∀ contents mode, e.op ≠ .secureWrite file contents mode) :
    dir w' file = dir w file := by
  refine h.frame (fun v => dir v file) fun e he => ?_
  rcases (henv _ _ _ _ (h.event_env e he)).file file with hsame | ⟨contents, mode, hop, _⟩
  · exact hsame
  · exact absurd hop (hops e he contents mode)

include henv in
theorem files_unwritten {α : Type} {p : Program syncSignature α} {result : Option α}
    (h : Exec env p w trace result w')
    (hops : ∀ e ∈ trace, ∀ file contents mode, e.op ≠ .secureWrite file contents mode) :
    dir w' = dir w := by
  funext file
  exact file_unwritten henv h file fun e he => hops e he file

include henv in
theorem exec_secureWrite {file : StateFile} {contents : Bytes} {result : Option (Except Error Unit)}
    (h : Exec env (secureWrite file contents modePublic).run w trace result w') :
    (trace = [] ∧ result = none ∧ w' = w) ∨
      ∃ answer, trace = [writeEvent w w' file contents answer] ∧
        (result = none ∨ result = some answer) ∧
        (dir w' = (dir w).install file contents ∨
          (∃ e, answer = Except.error e) ∧ dir w' = dir w) := by
  rcases exec_ask (S := syncSignature) (.secureWrite file contents modePublic)
    (fun answer : Except Error Unit => answer) h with hkill | ⟨answer, htrace, hmove, hresult⟩
  · exact Or.inl hkill
  · exact Or.inr ⟨answer, htrace, hresult, henv _ _ _ _ hmove⟩

/-- Every write of the trace succeeded and every clock reading can be formatted. -/
structure Clean (s : CaSyncService) (trace : List (SyncEvent W)) : Prop where
  writes : ∀ w w' file contents answer,
    writeEvent w w' file contents answer ∈ trace → answer = .ok ()
  clock : ∀ (w w' : W) (t : Time), (⟨w, .now, t, w'⟩ : SyncEvent W) ∈ trace →
    s.client.formatRfc3339 t ≠ none

theorem Clean.append {first second : List (SyncEvent W)} (h : Clean s (first ++ second)) :
    Clean s first ∧ Clean s second := by
  constructor
  · exact ⟨fun w w' file contents answer he =>
      h.writes w w' file contents answer (List.mem_append_left _ he),
      fun w w' t he => h.clock w w' t (List.mem_append_left _ he)⟩
  · exact ⟨fun w w' file contents answer he =>
      h.writes w w' file contents answer (List.mem_append_right _ he),
      fun w w' t he => h.clock w w' t (List.mem_append_right _ he)⟩

theorem Clean.tail {e : SyncEvent W} (h : Clean s (e :: trace)) : Clean s trace where
  writes := fun w w' file contents answer he =>
    h.writes w w' file contents answer (List.mem_cons_of_mem _ he)
  clock := fun w w' t he => h.clock w w' t (List.mem_cons_of_mem _ he)

include henv in
theorem secureWrite_clean {file : StateFile} {contents : Bytes} {e : Error}
    (h : Exec env (secureWrite file contents modePublic).run w trace (some (.error e)) w') :
    ¬ Clean s trace := by
  intro hclean
  rcases exec_secureWrite henv h with ⟨_, hnone, _⟩ | ⟨answer, rfl, hresult, _⟩
  · cases hnone
  · rcases hresult with hnone | hsome
    · cases hnone
    · have hok := hclean.writes _ _ _ _ _ (List.mem_singleton_self _)
      rw [hok] at hsome
      cases hsome

include henv in
theorem writeTimestamp_clean {file : StateFile} {e : Error}
    (h : Exec env (s.writeTimestamp file).run w trace (some (.error e)) w') : ¬ Clean s trace := by
  intro hclean
  rcases exec_perform_bind h with ⟨_, hnone, _⟩ | ⟨t, v, rest, rfl, _, h⟩
  · cases hnone
  cases hstamp : s.client.formatRfc3339 t with
  | none => exact hclean.clock _ _ _ (List.mem_cons_self ..) hstamp
  | some stamp =>
    rw [hstamp, okOr, ofExcept_ok_bind] at h
    exact secureWrite_clean s henv h (hclean.tail s)

theorem clockNow_error {e : Error} {v v' : W}
    (h : Exec env clockNow.run v trace (some (.error e)) v') : False := by
  rcases exec_action_perform h with ⟨_, hnone, _⟩ | ⟨_, _, _, hnone | hsome⟩
  · cases hnone
  · cases hnone
  · cases hsome

theorem generateNonce_error {e : Error} {v v' : W}
    (h : Exec env generateNonce.run v trace (some (.error e)) v') : False := by
  rcases exec_action_bind h with ⟨hnone, _⟩ | ⟨e', _, hbytes⟩ | ⟨_, _, _, _, _, _, hpure⟩
  · cases hnone
  · rcases exec_action_perform hbytes with ⟨_, hnone, _⟩ | ⟨_, _, _, hnone | hsome⟩
    · cases hnone
    · cases hnone
    · cases hsome
  · obtain ⟨_, _, hnone | hsome⟩ := exec_pure hpure
    · cases hnone
    · cases hsome

theorem signRequest_error {client : Client} {machineId nonce method path : Text} {timestamp : Int}
    {body : Bytes} {e : Error}
    (h : signRequest client machineId timestamp nonce method path body = .error e) :
    ∃ message, client.sign message = none := by
  unfold signRequest at h
  simp only at h
  split at h
  · exact ⟨_, by assumption⟩
  · cases h

/-- A request remains unsigned only when the keypair refuses. -/
theorem sign_error {method path : Text} {body : Bytes} {e : Error}
    (h : Exec env (s.sign method path body).run w trace (some (.error e)) w') :
    ∃ message, s.client.sign message = none := by
  rcases exec_action_bind h with ⟨hnone, _⟩ | ⟨_, _, hclock⟩ | ⟨_, _, _, _, _, _, h⟩
  · cases hnone
  · exact (clockNow_error hclock).elim
  · rcases exec_action_bind h with ⟨hnone, _⟩ | ⟨_, _, hnonce⟩ | ⟨_, _, _, _, _, _, h⟩
    · cases hnone
    · exact (generateNonce_error hnonce).elim
    · obtain ⟨_, _, hnone | hsome⟩ := exec_ofExcept h
      · cases hnone
      · exact signRequest_error (Option.some.inj hsome).symm

/-- The fetch signs its request and then makes the one GET of the pass. -/
theorem exec_fetchBundle {fingerprint : Option Text} {result : Option (Except Error HttpResponse)}
    (h : Exec env (s.fetchBundle fingerprint).run w trace result w') :
    ((∀ e ∈ trace, IsSigning e.op) ∧ (result = none ∨
      ∃ e, result = some (.error e) ∧ ∃ message, s.client.sign message = none)) ∨
    ∃ first signed v answer,
      trace = first ++ [getEvent v w' (s.bundleRequest signed fingerprint) answer] ∧
      (∀ e ∈ first, IsSigning e.op) ∧ (result = none ∨ result = some answer) := by
  have hcalls := calls_sign s (text "GET") caBundlePath []
  rcases exec_action_bind h with
    ⟨rfl, hsign⟩ | ⟨e, hresult, hsign⟩ | ⟨signed, first, second, v, rfl, hsign, hget⟩
  · exact Or.inl ⟨hsign.event_calls hcalls, Or.inl rfl⟩
  · exact Or.inl ⟨hsign.event_calls hcalls, hresult.imp id fun hr => ⟨e, hr, sign_error s hsign⟩⟩
  · rcases exec_ask (S := syncSignature) (.get (s.bundleRequest signed fingerprint))
      (fun answer : Except Error HttpResponse => answer) hget with
      ⟨rfl, rfl, rfl⟩ | ⟨answer, rfl, _, hresult⟩
    · exact Or.inl ⟨by simpa using hsign.event_calls hcalls, Or.inl rfl⟩
    · exact Or.inr ⟨first, signed, v, answer, rfl, hsign.event_calls hcalls, hresult⟩

theorem fetchBundle_ok {fingerprint : Option Text} {response : HttpResponse}
    (h : Exec env (s.fetchBundle fingerprint).run w trace (some (.ok response)) w') :
    ∃ first signed v,
      trace = first ++ [getEvent v w' (s.bundleRequest signed fingerprint) (.ok response)] ∧
      ∀ e ∈ first, IsSigning e.op := by
  rcases exec_fetchBundle s h with ⟨_, hnone | ⟨_, herror, _⟩⟩ |
    ⟨first, signed, v, answer, rfl, hsigning, hnone | hanswer⟩
  · cases hnone
  · cases herror
  · cases hnone
  · obtain rfl := Option.some.inj hanswer
    exact ⟨first, signed, v, rfl, hsigning⟩

end Executions

inductive Decision
  | notModified
  | unchanged (bundle : CaBundle)
  | apply (bundle : CaBundle)

/-- What the pass decides to do about a response. -/
def decideOn (persisted : PersistedState) (response : HttpResponse) : SyncAction Decision := do
  if response.status = statusNotModified then
    pure .notModified
  else if isSuccess response.status = false then
    throw .caBundleRejected
  else
    let raw ← Action.ofExcept (fromJson s.client response.body)
    let now ← clockNow
    let bundle ← Action.ofExcept ((fromResponse s.client.toCrypto raw now
      (s.expectedSigningKey persisted)).mapError .invalidCaBundle)
    if CaSyncService.regressed persisted bundle then
      throw (.invalidCaBundle .generationRegressed)
    else if persisted.generation = some bundle.generation ∧
        persisted.fingerprint = some bundle.fingerprint then
      pure (.unchanged bundle)
    else
      pure (.apply bundle)

def survey : SyncAction (PersistedState × Decision) := do
  let persisted ← loadState
  let response ← s.fetchBundle persisted.fingerprint
  s.writeTimestamp .lastSync
  let decision ← decideOn s persisted response
  pure (persisted, decision)

/-- What follows an apply that the helper confirmed. -/
def conclude (bundle : CaBundle) : SyncAction SyncOutcome := do
  s.persistAfterApply bundle
  let acknowledged ← s.acknowledge (CaSyncService.appliedReport bundle)
  pure (.updated bundle.generation bundle.fingerprint acknowledged)

/-- How the pass goes on from the helper's answer. -/
def answered (bundle : CaBundle) : Except Error BundleApplyOutcome → SyncAction SyncOutcome
  | .ok .applied => conclude s bundle
  | .ok .rolledBack => do
    let _ ← s.acknowledge (CaSyncService.rollbackReport bundle)
    throw .caReloadFailed
  | .error e => throw e

def settle (persisted : PersistedState) : Decision → SyncAction SyncOutcome
  | .notModified => do
    s.writeTimestamp .lastSuccess
    pure (.notModified (persisted.generation.getD 0))
  | .unchanged bundle => do
    s.persistPinIfNeeded bundle
    s.writeTimestamp .lastSuccess
    pure (.unchanged bundle.generation)
  | .apply bundle => do
    match ← CaSyncService.apply bundle with
    | .applied => conclude s bundle
    | .rolledBack =>
      let _ ← s.acknowledge (CaSyncService.rollbackReport bundle)
      throw .caReloadFailed

theorem synchronize_eq :
    s.synchronize = survey s >>= fun decided => settle s decided.1 decided.2 := by
  have hthrow : ∀ {α β : Type} (e : Error) (f : α → SyncAction β),
      ((throw e : SyncAction α) >>= f) = throw e := fun _ _ => rfl
  simp only [CaSyncService.synchronize, survey, decideOn, bind_assoc, pure_bind]
  refine bind_congr fun persisted => bind_congr fun response => bind_congr fun _ => ?_
  split
  · simp only [pure_bind, settle]
  · split
    · rw [hthrow]
    · simp only [bind_assoc]
      refine bind_congr fun raw => bind_congr fun now => bind_congr fun bundle => ?_
      split
      · rw [hthrow]
      · split
        · simp only [pure_bind, settle]
        · rw [pure_bind]
          exact bind_congr (x := CaSyncService.apply bundle) fun outcome => by
            cases outcome <;> rfl

/-- The response carries a bundle that validation accepts under the given pin at this time. -/
def Accepts (now : Time) (response : HttpResponse) (pin : Option Text) (bundle : CaBundle) : Prop :=
  isSuccess response.status = true ∧ ∃ raw, s.client.bundleFromJson response.body = some raw ∧
    fromResponse s.client.toCrypto raw now pin = .ok bundle

def clockEvent (w w' : W) (now : Time) : SyncEvent W := ⟨w, .now, now, w'⟩

/-- The trace ends with the reading of the clock by which validation accepts the bundle. -/
def Judged (trace : List (SyncEvent W)) (response : HttpResponse) (pin : Option Text)
    (bundle : CaBundle) : Prop :=
  ∃ first v now v', trace = first ++ [clockEvent v v' now] ∧ Accepts s now response pin bundle

/-- The reasons for a decision. -/
def Decided (persisted : PersistedState) (response : HttpResponse) (trace : List (SyncEvent W)) :
    Decision → Prop
  | .notModified => response.status = statusNotModified
  | .unchanged bundle => Judged s trace response (s.expectedSigningKey persisted) bundle ∧
      persisted.generation = some bundle.generation ∧
      persisted.fingerprint = some bundle.fingerprint
  | .apply bundle => Judged s trace response (s.expectedSigningKey persisted) bundle ∧
      (∀ g, persisted.generation = some g → g ≤ bundle.generation) ∧
      ¬ (persisted.generation = some bundle.generation ∧
        persisted.fingerprint = some bundle.fingerprint)

/-- The reasons for failing without a decision. -/
def Refused (persisted : PersistedState) (response : HttpResponse)
    (trace : List (SyncEvent W)) : Prop :=
  (response.status ≠ statusNotModified ∧ isSuccess response.status = false) ∨
    (isSuccess response.status = true ∧ s.client.bundleFromJson response.body = none) ∨
    (∃ raw v now v' e, isSuccess response.status = true ∧
      s.client.bundleFromJson response.body = some raw ∧
      clockEvent v v' now ∈ trace ∧
      fromResponse s.client.toCrypto raw now (s.expectedSigningKey persisted) = .error e) ∨
    ∃ bundle v now v', clockEvent v v' now ∈ trace ∧
      Accepts s now response (s.expectedSigningKey persisted) bundle ∧
      CaSyncService.regressed persisted bundle = true

theorem Judged.accepts {trace : List (SyncEvent W)} {response : HttpResponse} {pin : Option Text}
    {bundle : CaBundle} (h : Judged s trace response pin bundle) :
    ∃ now, Accepts s now response pin bundle := by
  obtain ⟨_, _, now, _, _, haccepts⟩ := h
  exact ⟨now, haccepts⟩

/-- More calls in front change nothing of the last reading. -/
theorem Judged.prepend {trace : List (SyncEvent W)} {response : HttpResponse} {pin : Option Text}
    {bundle : CaBundle} (h : Judged s trace response pin bundle) (front : List (SyncEvent W)) :
    Judged s (front ++ trace) response pin bundle := by
  obtain ⟨first, v, now, v', rfl, haccepts⟩ := h
  exact ⟨front ++ first, v, now, v', (List.append_assoc ..).symm, haccepts⟩

theorem Decided.prepend {persisted : PersistedState} {response : HttpResponse}
    {trace : List (SyncEvent W)} {decision : Decision}
    (h : Decided s persisted response trace decision) (front : List (SyncEvent W)) :
    Decided s persisted response (front ++ trace) decision := by
  cases decision with
  | notModified => exact h
  | unchanged bundle => exact ⟨h.1.prepend s front, h.2⟩
  | apply bundle => exact ⟨h.1.prepend s front, h.2⟩

theorem regressed_false {persisted : PersistedState} {bundle : CaBundle}
    (h : ¬ CaSyncService.regressed persisted bundle = true) :
    ∀ g, persisted.generation = some g → g ≤ bundle.generation := by
  intro g hg
  rw [CaSyncService.regressed, hg] at h
  exact UInt64.not_lt.mp (by simpa using h)

section Surveys

variable {env : Environment syncSignature W} {dir : W → StateDir} (henv : Respects env dir)
variable {w w' : W} {trace : List (SyncEvent W)}

theorem exec_decideOn {persisted : PersistedState} {response : HttpResponse}
    {result : Option (Except Error Decision)}
    (h : Exec env (decideOn s persisted response).run w trace result w') :
    (∀ e ∈ trace, e.op = .now) ∧ (result = none ∨
      (∃ e, result = some (.error e) ∧ Refused s persisted response trace) ∨
      ∃ decision, result = some (.ok decision) ∧
        Decided s persisted response trace decision) := by
  unfold decideOn at h
  split at h
  · rename_i hstatus
    obtain ⟨rfl, _, hresult⟩ := exec_pure h
    exact ⟨by simp, hresult.imp id fun hr => Or.inr ⟨.notModified, hr, hstatus⟩⟩
  rename_i hstatus
  split at h
  · rename_i hfailed
    obtain ⟨rfl, _, hresult⟩ := exec_throw h
    exact ⟨by simp, hresult.imp id fun hr => Or.inl ⟨_, hr, Or.inl ⟨hstatus, hfailed⟩⟩⟩
  rename_i hfailed
  have hsuccess : isSuccess response.status = true := by simpa using hfailed
  cases hraw : s.client.bundleFromJson response.body with
  | none =>
    rw [fromJson, hraw, ofExcept_error_bind] at h
    obtain ⟨rfl, _, hresult⟩ := exec_throw h
    exact ⟨by simp, hresult.imp id fun hr => Or.inl ⟨_, hr, Or.inr (Or.inl ⟨hsuccess, hraw⟩)⟩⟩
  | some raw =>
    rw [fromJson, hraw, ofExcept_ok_bind] at h
    rcases exec_perform_bind h with ⟨rfl, rfl, _⟩ | ⟨now, v, rest, rfl, _, h⟩
    · exact ⟨by simp, Or.inl rfl⟩
    cases hbundle : fromResponse s.client.toCrypto raw now (s.expectedSigningKey persisted) with
    | error e =>
      rw [hbundle, mapError_error, ofExcept_error_bind] at h
      obtain ⟨rfl, _, hresult⟩ := exec_throw h
      refine ⟨by simp, hresult.imp id fun hr => Or.inl ⟨_, hr, Or.inr (Or.inr (Or.inl ?_))⟩⟩
      exact ⟨raw, w, now, v, e, hsuccess, hraw, List.mem_singleton_self _, hbundle⟩
    | ok bundle =>
      have haccepts : Accepts s now response (s.expectedSigningKey persisted) bundle :=
        ⟨hsuccess, raw, hraw, hbundle⟩
      have hjudged :
          Judged s [clockEvent w v now] response (s.expectedSigningKey persisted) bundle :=
        ⟨[], w, now, v, rfl, haccepts⟩
      rw [hbundle, mapError_ok, ofExcept_ok_bind] at h
      split at h
      · rename_i hregressed
        obtain ⟨rfl, _, hresult⟩ := exec_throw h
        refine ⟨by simp, hresult.imp id fun hr => Or.inl ⟨_, hr, Or.inr (Or.inr (Or.inr ?_))⟩⟩
        exact ⟨bundle, w, now, v, List.mem_singleton_self _, haccepts, hregressed⟩
      rename_i hregressed
      split at h
      · rename_i hsame
        obtain ⟨rfl, _, hresult⟩ := exec_pure h
        exact ⟨by simp, hresult.imp id fun hr => Or.inr ⟨.unchanged bundle, hr, hjudged, hsame⟩⟩
      · rename_i hdiffers
        obtain ⟨rfl, _, hresult⟩ := exec_pure h
        exact ⟨by simp, hresult.imp id fun hr =>
          Or.inr ⟨.apply bundle, hr, hjudged, regressed_false hregressed, hdiffers⟩⟩

theorem calls_survey : (survey s).run.Calls IsSurveying := by
  refine calls_bind (calls_loadState.mono fun op hop => ?_) fun persisted => ?_
  · cases op <;> trivial
  refine calls_bind (calls_bind ((calls_sign s _ _ _).mono fun op hop => ?_) fun _ =>
    calls_bind (calls_perform trivial) fun _ => trivial) fun response => ?_
  · cases op <;> trivial
  refine calls_bind ((calls_writeTimestamp s .lastSync).mono fun op hop => ?_) fun _ => ?_
  · cases op <;> trivial
  refine calls_bind ?_ fun _ => trivial
  unfold decideOn
  split
  · trivial
  split
  · trivial
  refine calls_bind trivial fun raw => calls_bind (calls_perform trivial) fun now => ?_
  refine calls_bind trivial fun bundle => ?_
  split
  · trivial
  split <;> trivial

/-- A survey that came to a decision: on the persisted state, by the one response. -/
structure Surveyed (dir : W → StateDir) (w : W) (trace : List (SyncEvent W))
    (persisted : PersistedState) (response : HttpResponse) (decision : Decision) : Prop where
  load : (dir w).load = .ok persisted
  fetched : ∃ v v' signed,
    getEvent v v' (s.bundleRequest signed persisted.fingerprint) (.ok response) ∈ trace
  only : ∀ v v' request answer, getEvent v v' request answer ∈ trace → answer = .ok response
  decided : Decided s persisted response trace decision

/-- No GET is among calls that exclude it. -/
theorem getEvent_notMem {P : SyncOp → Prop} (hP : ∀ request, ¬ P (.get request))
    (htrace : ∀ e ∈ trace, P e.op) {v v' : W} {request : HttpRequest}
    {answer : Except Error HttpResponse} : getEvent v v' request answer ∉ trace :=
  fun hmem => hP request (htrace _ hmem)

include henv in
theorem exec_survey {persisted : PersistedState} {decision : Decision}
    (h : Exec env (survey s).run w trace (some (.ok (persisted, decision))) w') :
    ∃ response, Surveyed s dir w trace persisted response decision := by
  obtain ⟨loaded, t₁, r₁, w₁, rfl, hload, h⟩ := exec_action_bind_ok h
  obtain ⟨response, t₂, r₂, w₂, rfl, hfetch, h⟩ := exec_action_bind_ok h
  obtain ⟨_, t₃, r₃, w₃, rfl, hstamp, h⟩ := exec_action_bind_ok h
  obtain ⟨d, t₄, r₄, w₄, rfl, hdecide, h⟩ := exec_action_bind_ok h
  obtain ⟨rfl, _, hnone | hpair⟩ := exec_pure h
  · cases hnone
  obtain ⟨rfl, rfl⟩ : persisted = loaded ∧ decision = d := by simpa using hpair
  obtain ⟨_, hnone | hloaded⟩ := reads_loadState henv _ _ _ _ hload
  · cases hnone
  obtain ⟨hnow, hnone | ⟨_, herror, _⟩ | ⟨_, hok, hdecided⟩⟩ := exec_decideOn s hdecide
  · cases hnone
  · cases herror
  obtain rfl := Except.ok.inj (Option.some.inj hok)
  have hdecides := hdecided.prepend s (t₁ ++ (t₂ ++ t₃))
  obtain ⟨first, signed, v, rfl, hsigning⟩ := fetchBundle_ok s hfetch
  refine ⟨response, (Option.some.inj hloaded).symm, ⟨v, w₂, signed, by simp⟩, ?_,
    by simpa only [List.append_assoc, List.append_nil] using hdecides⟩
  intro x x' request answer hmem
  simp only [List.mem_append, List.mem_singleton, List.not_mem_nil, or_false] at hmem
  rcases hmem with hmem | (hmem | hmem) | hmem | hmem
  · exact absurd hmem (getEvent_notMem (by simp [IsRead]) (hload.event_calls calls_loadState))
  · exact absurd hmem (getEvent_notMem (by simp [IsSigning]) hsigning)
  · cases hmem
    rfl
  · exact absurd hmem (getEvent_notMem (by simp [IsStamp])
      (hstamp.event_calls (calls_writeTimestamp s .lastSync)))
  · exact absurd hmem (getEvent_notMem (P := fun op => op = .now) (by simp) hnow)

end Surveys

theorem calls_persistPin (bundle : CaBundle) :
    (s.persistPinIfNeeded bundle).run.Calls (IsPinning s bundle) := by
  unfold CaSyncService.persistPinIfNeeded
  split
  · trivial
  rename_i hpin
  have hnone : s.pinnedSigningKey = none := by simpa using hpin
  refine calls_bind (calls_bind (calls_perform trivial) fun _ => trivial) fun existing => ?_
  split
  · trivial
  · exact calls_bind (calls_perform ⟨hnone, rfl⟩) fun _ => trivial

theorem calls_lastSuccess (bundle : CaBundle) :
    (s.writeTimestamp .lastSuccess).run.Calls (IsPinning s bundle) := by
  refine (calls_writeTimestamp s .lastSuccess).mono fun op hop => ?_
  cases op with
  | secureWrite file contents mode => cases hop; trivial
  | _ => trivial

theorem IsPinning.storing {bundle : CaBundle} {op : SyncOp} (h : IsPinning s bundle op) :
    IsStoring s bundle op := by
  cases op with
  | secureWrite file contents mode => cases file <;> first | exact h | exact absurd h not_false
  | _ => first | exact h | trivial

theorem calls_persistAfterApply (bundle : CaBundle) :
    (s.persistAfterApply bundle).run.Calls (IsStoring s bundle) := by
  refine calls_bind (calls_bind (calls_perform rfl) fun _ => trivial) fun _ => ?_
  refine calls_bind (calls_bind (calls_perform rfl) fun _ => trivial) fun _ => ?_
  refine calls_bind ((calls_persistPin s bundle).mono fun op => IsPinning.storing s) fun _ => ?_
  exact (calls_lastSuccess s bundle).mono fun op => IsPinning.storing s

theorem calls_conclude (bundle : CaBundle) :
    (conclude s bundle).run.Calls (IsStoring s bundle) := by
  refine calls_bind (calls_persistAfterApply s bundle) fun _ => calls_bind ?_ fun _ => trivial
  refine (calls_acknowledge s _).mono fun op hop => ?_
  cases op with
  | secureWrite file contents mode => exact absurd hop not_false
  | _ => trivial

section Settlements

variable {env : Environment syncSignature W} {dir : W → StateDir} (henv : Respects env dir)
variable {w w' : W} {trace : List (SyncEvent W)}

/-- Settling an apply is stopped by the parser, or asks the helper and goes by its answer. -/
theorem exec_settle_apply {persisted : PersistedState} {bundle : CaBundle}
    {result : Option (Except Error SyncOutcome)}
    (h : Exec env (settle s persisted (.apply bundle)).run w trace result w') :
    (trace = [] ∧ w' = w ∧ (result = none ∨ ∃ e, result = some (.error e) ∧
      TrustedCaKeys.parse (renderTrustedUserCaKeys bundle) = .error e)) ∨
    ∃ v rest answer, trace = applyEvent w v (renderTrustedUserCaKeys bundle) answer :: rest ∧
      Exec env (answered s bundle answer).run v rest result w' := by
  simp only [settle, CaSyncService.apply, bind_assoc] at h
  cases hparse : TrustedCaKeys.parse (renderTrustedUserCaKeys bundle) with
  | error e =>
    rw [hparse, ofExcept_error_bind] at h
    obtain ⟨rfl, rfl, hresult⟩ := exec_throw h
    exact Or.inl ⟨rfl, rfl, hresult.imp id fun hr => ⟨e, hr, rfl⟩⟩
  | ok keys =>
    simp only [hparse, ofExcept_ok_bind, applierApply] at h
    rcases exec_perform_bind h with ⟨rfl, rfl, rfl⟩ | ⟨answer, v, rest, rfl, _, h⟩
    · exact Or.inl ⟨rfl, rfl, Or.inl rfl⟩
    · match answer, h with
      | .ok .applied, h => exact Or.inr ⟨v, rest, .ok .applied, rfl, h⟩
      | .ok .rolledBack, h => exact Or.inr ⟨v, rest, .ok .rolledBack, rfl, h⟩
      | .error e, h => exact Or.inr ⟨v, rest, .error e, rfl, h⟩

/-- An apply that was not confirmed is acknowledged at most, and fails. -/
theorem exec_answered_refused {bundle : CaBundle} {answer : Except Error BundleApplyOutcome}
    {result : Option (Except Error SyncOutcome)} (hrefuses : answer ≠ .ok .applied)
    (h : Exec env (answered s bundle answer).run w trace result w') :
    (∀ e ∈ trace, IsAcknowledging e.op) ∧ (result = none ∨ ∃ e, result = some (.error e)) := by
  match answer, hrefuses, h with
  | .ok .applied, hrefuses, _ => exact absurd rfl hrefuses
  | .ok .rolledBack, _, h =>
    have hack := calls_acknowledge s (CaSyncService.rollbackReport bundle)
    rw [answered] at h
    rcases exec_action_bind h with
      ⟨rfl, hkill⟩ | ⟨e, hresult, herror⟩ | ⟨_, first, second, _, rfl, hfirst, h⟩
    · exact ⟨hkill.event_calls hack, Or.inl rfl⟩
    · exact ⟨herror.event_calls hack, hresult.imp id fun hr => ⟨e, hr⟩⟩
    · obtain ⟨rfl, _, hresult⟩ := exec_throw h
      exact ⟨by simpa using hfirst.event_calls hack, hresult.imp id fun hr => ⟨_, hr⟩⟩
  | .error e, _, h =>
    obtain ⟨rfl, _, hresult⟩ := exec_throw h
    exact ⟨by simp, hresult.imp id fun hr => ⟨e, hr⟩⟩

include henv in
/-- The pin is left alone when there is one, and otherwise written once. -/
theorem exec_persistPin {bundle : CaBundle} {result : Option (Except Error Unit)}
    (h : Exec env (s.persistPinIfNeeded bundle).run w trace result w') :
    (dir w' = dir w ∧ (∀ e ∈ trace, IsRead e.op) ∧ (result = none ∨
      (result = some (.ok ()) ∧
        (s.pinnedSigningKey ≠ none ∨ ∃ bytes, dir w .signingKey = .regular bytes)) ∨
      (result = some (.error .io) ∧ s.pinnedSigningKey = none ∧
        dir w .signingKey = .unreadable))) ∨
    (s.pinnedSigningKey = none ∧ dir w .signingKey = .missing ∧ ∃ v first answer,
      trace = first ++ [writeEvent v w' .signingKey (storedLine bundle.signingPublicKey) answer] ∧
      (∀ e ∈ first, IsRead e.op) ∧ (result = none ∨ result = some answer) ∧
      (dir w' = (dir w).install .signingKey (storedLine bundle.signingPublicKey) ∨
        (∃ e, answer = Except.error e) ∧ dir w' = dir w)) := by
  unfold CaSyncService.persistPinIfNeeded at h
  split at h
  · rename_i hpin
    obtain ⟨rfl, rfl, hresult⟩ := exec_pure h
    refine Or.inl ⟨rfl, by simp, hresult.imp id fun hr => Or.inl ⟨hr, Or.inl ?_⟩⟩
    exact Option.isSome_iff_ne_none.mp hpin
  rename_i hpin
  have hnone : s.pinnedSigningKey = none := by simpa using hpin
  simp only [readOptional, readFile] at h
  rcases exec_perform_bind h with ⟨rfl, rfl, rfl⟩ | ⟨answer, v, rest, rfl, hmove, h⟩
  · exact Or.inl ⟨rfl, by simp, Or.inl rfl⟩
  obtain ⟨rfl, hdir⟩ := henv _ _ _ _ hmove
  cases hentry : dir w .signingKey with
  | unreadable =>
    simp only [hentry, readEntry, optionalOf] at h
    obtain ⟨rfl, rfl, hresult⟩ := exec_throw h
    exact Or.inl ⟨hdir, by simp [IsRead], hresult.imp id fun hr => Or.inr ⟨hr, hnone, rfl⟩⟩
  | regular bytes =>
    simp only [hentry, readEntry, optionalOf, Option.isSome_some, if_true] at h
    obtain ⟨rfl, rfl, hresult⟩ := exec_pure h
    exact Or.inl ⟨hdir, by simp [IsRead],
      hresult.imp id fun hr => Or.inl ⟨hr, Or.inr ⟨bytes, rfl⟩⟩⟩
  | missing =>
    simp only [hentry, readEntry, optionalOf, Option.isSome_none,
      Bool.false_eq_true, if_false] at h
    rcases exec_secureWrite henv h with ⟨rfl, rfl, rfl⟩ | ⟨answer, rfl, hresult, hmove⟩
    · exact Or.inl ⟨hdir, by simp [IsRead], Or.inl rfl⟩
    · rw [hdir] at hmove
      exact Or.inr ⟨hnone, rfl, v, [_], answer, rfl, by simp [IsRead], hresult, hmove⟩

end Settlements

end MayflyAgent.SyncPasses
