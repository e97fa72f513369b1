import MayflyAgent.EnrollmentRuns
import MayflyAgent.SyncRuns

/-!
The boots of a daemon on one machine. Each boot makes sure that the machine is enrolled and then
runs passes, and is killed somewhere. The machine record and the pin of the bundle signing key
are written one after the other, and a later boot that finds the record asks nobody for the key:
the key of the enrollment response is the pin for ever if the boot that wrote the record also
wrote the pin.
-/
namespace MayflyAgent.Boots

open RustText Programs Contracts Checks Errors Bundles BundleValidation StateFiles CaSync SyncPasses
open SyncRuns Enrollment EnrollmentRuns
open SyncCourses (Pinned)
open SyncProgress (sampleClient unstored loads load_unstored)

variable {p : Platform}

section Startup

variable {α β : Type} {P : Condition enrollSignature Machine}

def Anyhow (_ : Error) : Condition enrollSignature Machine := fun _ _ => True

theorem meets_anyhow {x : EnrollAction α} {Q : α → Condition enrollSignature Machine}
    (h : Meets enrolling (Lawful p) P x.run (Returns Failing Q)) :
    Meets enrolling (Lawful p) P x.run (Returns Anyhow Q) := by
  refine h.post fun result past m hresult => ?_
  cases result with
  | ok a => exact hresult
  | error e => trivial

theorem meets_any_check {R : β → Condition enrollSignature Machine} {r : Except Error α}
    {f : α → EnrollAction β}
    (hf : ∀ a, r = .ok a → Meets enrolling (Lawful p) P (f a).run (Returns Anyhow R)) :
    Meets enrolling (Lawful p) P (Action.ofExcept r >>= f).run (Returns Anyhow R) :=
  meets_ofExcept_bind (fun _ _ _ _ _ => trivial) hf

/-- An identity is only loaded where there is a record. -/
theorem loadMachineIdentity_meets :
    Meets enrolling (Lawful p) (fun _ _ => True) (loadMachineIdentity p).run
      (Returns Anyhow fun _ _ => Enrolled) := by
  refine Meets.andThen (meets_anyhow (readKeypair_meets (C := fun _ => True))) fun keypair => ?_
  refine meets_any_check fun publicKey _ => ?_
  have hrecord : Meets enrolling (Lawful p) (fun _ m => True ∧ KeyOnDisk p m keypair)
      (loadRecord p).run (Returns Anyhow fun _ _ => Enrolled) := by
    refine Meets.andThen (meets_anyhow (readOrFail_meets _)) fun bytes => ?_
    refine (meets_ofExcept (F := Anyhow) fun _ _ _ _ _ => trivial).post fun result past m h => ?_
    cases result with
    | ok record => exact Option.ne_none_iff_exists'.mpr ⟨bytes, h.1.2⟩
    | error e => trivial
  refine Meets.andThen hrecord fun record => ?_
  refine (meets_ofExcept (F := Anyhow) fun _ _ _ _ _ => trivial).post fun result past m h => ?_
  cases result with
  | ok identity => exact h.1
  | error e => trivial

theorem attemptEnrollment_meets (config : Config) (token hostname : Text) :
    Meets enrolling (Lawful p) (fun _ _ => True) (attemptEnrollment p config token hostname).run
      (Returns Anyhow fun _ _ => Enrolled) := by
  refine Meets.andThen (enroll_meets config.serverUrl token hostname).attempt fun r => ?_
  split
  · exact meets_pure fun _ _ h => h
  · exact loadMachineIdentity_meets.pre fun _ _ _ => trivial
  · exact meets_throw fun _ _ _ => trivial

/-- Retrying only ends well after an attempt that did. -/
theorem retryWithBackoff_meets {op : EnrollAction α}
    (hop : Meets enrolling (Lawful p) (fun _ _ => True) op.run (Returns Anyhow fun _ _ => Enrolled))
    (fuel : Nat) : ∀ (attempt : UInt32) (lastErr : Option Error),
    Meets enrolling (Lawful p) (fun _ _ => True) (retryWithBackoff op attempt lastErr fuel).run
      (Returns Anyhow fun _ _ => Enrolled) := by
  have hshutdown : ∀ {P : Condition enrollSignature Machine},
      Meets enrolling (Lawful p) P shutdownRequested.run (Returns Anyhow fun _ _ _ => True) :=
    meets_quiet_call _ trivial fun _ _ _ _ _ => trivial
  induction fuel with
  | zero => exact fun _ _ => meets_running
  | succ fuel ih =>
    intro attempt lastErr
    refine Meets.andThen hshutdown fun requested => ?_
    split
    · exact meets_throw fun _ _ _ => trivial
    refine Meets.andThen hop.attempt fun r => ?_
    split
    · exact meets_pure fun _ _ h => h
    refine Meets.andThen hshutdown fun requested => ?_
    split
    · exact meets_throw fun _ _ _ => trivial
    refine Meets.andThen (meets_quiet_call _ (M := fun _ _ _ => True) trivial
      fun _ _ _ _ _ => trivial) fun _ => ?_
    exact ih _ _

/-- The pin that is written is the key of the response in the cell. -/
theorem pinBundleSigningKey_meets (config : Config) (response : EnrollmentResponse) :
    Meets enrolling (Lawful p) (fun _ m => Enrolled m ∧ m.lastResponse = some response)
      (pinBundleSigningKey config response.bundleSigningKey).run
      (Returns Anyhow fun _ _ => Enrolled) := by
  unfold pinBundleSigningKey
  split
  · exact meets_pure fun _ _ h => h.1
  split
  · exact meets_pure fun _ _ h => h.1
  · rename_i key hkey
    refine Meets.andThen (meets_quiet_call (.readState .signingKey)
      (M := fun _ _ m => Enrolled m ∧ m.lastResponse = some response) trivial
      fun _ _ _ h _ => h) fun answer => ?_
    refine meets_any_check fun existing _ => ?_
    split
    · exact meets_pure fun _ _ h => h.1
    refine Meets.andThen (meets_perform
      (M := fun _ _ m => Enrolled m) fun past m answer m' hm henv => ?_) fun answer => ?_
    · have hm' : m'.identity = m.identity ∧ m'.lastResponse = m.lastResponse := by
        rcases henv with ⟨_, rfl⟩ | ⟨_, rfl | rfl⟩ <;> exact ⟨rfl, rfl⟩
      refine ⟨lawful_outside hm'.1 nofun (fun _ => hm'.2) nofun ?_, ?_⟩
      · rintro file contents mode heq
        cases heq
        exact ⟨hm.1, rfl, response, key, hm.2, hkey, rfl⟩
      · rw [Enrolled, hm'.1]
        exact hm.1
    · refine meets_any_check fun _ _ => ?_
      exact meets_pure fun _ _ h => h

theorem ensureEnrolled_meets (config : Config) (hostname : Text) (fuel : Nat) :
    Meets enrolling (Lawful p) (fun _ _ => True) (ensureEnrolled p config hostname fuel).run
      (Returns Anyhow fun _ _ => Enrolled) := by
  refine Meets.andThen (meets_anyhow (isEnrolled_meets (C := fun _ => True))) fun enrolled => ?_
  cases enrolled with
  | true => exact loadMachineIdentity_meets.pre fun _ _ _ => trivial
  | false =>
    refine Meets.andThen (meets_quiet_call _ (M := fun _ _ m => ¬ Enrolled m) trivial
      fun _ _ _ hm _ h => nomatch hm.2.mpr h) fun token => ?_
    refine meets_any_check fun token _ => ?_
    refine meets_any_check fun _ _ => ?_
    refine Meets.andThen (meets_perform (M := fun _ _ _ => True)
      fun past m answer m' hm henv => ?_) fun client => ?_
    · obtain rfl := henv
      exact ⟨lawful_outside rfl nofun (fun h => absurd h hm) nofun nofun, trivial⟩
    refine meets_any_check fun _ _ => ?_
    refine Meets.andThen (retryWithBackoff_meets
      (attemptEnrollment_meets config token hostname) fuel 0 none) fun identity => ?_
    refine Meets.andThen (meets_quiet_call .lastResponse
      (M := fun answer _ m => Enrolled m ∧ m.lastResponse = answer) trivial
      fun _ _ _ h henv => ⟨h, henv.1.symm⟩) fun answer => ?_
    split
    · refine Meets.andThen (pinBundleSigningKey_meets config _) fun _ => ?_
      exact meets_pure fun _ _ h => h
    · exact meets_pure fun _ _ h => h.1

end Startup

theorem calls_loadMachineIdentity : (loadMachineIdentity p).run.Calls IsQuiet := by
  have hask : ∀ {α : Type} {op : EnrollOp} {f : op.Answer → Except Error α}, IsQuiet op →
      (ask op >>= fun answer => Action.ofExcept (f answer)).run.Calls IsQuiet :=
    fun hop => ⟨hop, fun _ => trivial⟩
  have hsecurity : (validatePrivateKeySecurity p).run.Calls IsQuiet :=
    calls_bind (calls_bind (hask trivial) fun _ => trivial) fun _ =>
      calls_bind (calls_bind (hask trivial) fun _ => trivial) fun _ =>
        calls_bind (calls_bind (hask trivial) fun _ => trivial) fun _ =>
          calls_bind (hask trivial) fun _ => trivial
  have hkeypair : (readKeypair p).run.Calls IsQuiet :=
    calls_bind hsecurity fun _ => calls_bind (hask trivial) fun _ =>
      calls_bind trivial fun _ => trivial
  refine calls_bind hkeypair fun keypair => calls_bind trivial fun _ => ?_
  exact calls_bind (calls_bind (hask trivial) fun _ => trivial) fun _ => trivial

/-- A machine with a record is not touched by the start of the daemon. -/
theorem start_enrolled {config : Config} {hostname : Text} {fuel : Nat} {m m' : Machine}
    {trace : List (EnrollEvent Machine)} {result : Option (Except Error MachineIdentity)}
    (h : Exec enrolling (ensureEnrolled p config hostname fuel).run m trace result m')
    (hm : Enrolled m) : m' = m := by
  rcases exec_perform_bind h with ⟨_, _, rfl⟩ | ⟨answer, m₁, rest, _, henv, hrest⟩
  · rfl
  obtain ⟨hanswer, rfl⟩ := henv
  obtain rfl : answer = true := hanswer.trans (Option.isSome_iff_ne_none.mpr hm)
  refine hrest.frame id fun e he => ?_
  exact enrolling_quiet (hrest.event_env e he) (hrest.event_calls calls_loadMachineIdentity e he)

/-- What a boot starts from, how its start goes and what that leaves, and the passes after it. -/
structure Boot where
  config : Config
  client : Client
  before : Machine
  trace : List (EnrollEvent Machine)
  result : Option (Except Error MachineIdentity)
  started : Machine
  passes : List (SyncPass StateDir)
  after : Machine

/-- Passes are run for an identity only, and touch nothing but the state files. -/
structure Boot.Happens (p : Platform) (b : Boot) : Prop where
  start : ∃ hostname fuel, Exec enrolling (ensureEnrolled p b.config hostname fuel).run
    b.before b.trace b.result b.started
  passes : b.passes = [] ∧ b.after = b.started ∨ ∃ identity dir, b.result = some (.ok identity) ∧
    Run hostile (syncService b.config b.client identity).synchronize.run b.started.dir
      b.passes dir ∧
    b.after = { b.started with dir := dir }

/-- Only the disk survives a process. -/
def Machine.restarted (m : Machine) : Machine := { m with lastResponse := none }

inductive Life (p : Platform) : Machine → List Boot → Machine → Prop
  | nil (m : Machine) : Life p m [] m
  | cons {m m' : Machine} {b : Boot} {boots : List Boot} (hbefore : b.before = Machine.restarted m)
      (hboot : b.Happens p) (hrest : Life p b.after boots m') : Life p m (b :: boots) m'

theorem Life.split {m m' : Machine} {first second : List Boot} (h : Life p m (first ++ second) m') :
    ∃ m₁, Life p m first m₁ ∧ Life p m₁ second m' := by
  induction first generalizing m with
  | nil => exact ⟨m, Life.nil m, h⟩
  | cons b rest ih =>
    cases h with
    | cons hbefore hboot hrest =>
      obtain ⟨m₁, hfirst, hsecond⟩ := ih hrest
      exact ⟨m₁, Life.cons hbefore hboot hfirst, hsecond⟩

/-- The boot writes the record, for this response to its last request. -/
def Produced (p : Platform) (trace : List (EnrollEvent Machine)) (response : EnrollmentResponse) :
    Prop :=
  ∃ past e rest contents mode, trace = past ++ e :: rest ∧
    e.op = .secureWrite .record contents mode ∧ ¬ Enrolled e.before ∧ Enrolled e.after ∧
    lastReceived p past = some response

/-- A write of the pin takes effect. -/
def Pins (trace : List (EnrollEvent Machine)) : Prop :=
  ∃ e ∈ trace, ∃ contents mode, e.op = .writeState .signingKey contents mode ∧
    e.after.dir .signingKey = .regular contents

/-- A boot that writes the record for a response with a key also writes the pin. -/
def PinnedAtOnce (p : Platform) (b : Boot) : Prop :=
  ∀ response key, Produced p b.trace response → response.bundleSigningKey = some key → Pins b.trace

/-- Whatever state the pass loads, it expects a key with this material. -/
def PassExpects (b : Boot) (q : SyncPass StateDir) (key : Text) : Prop :=
  ∀ identity persisted trace d, b.result = some (.ok identity) →
    Exec hostile loadState.run q.before trace (some (.ok persisted)) d →
    ∃ expected, (syncService b.config b.client identity).expectedSigningKey persisted =
      some expected ∧ SameMaterial expected key

theorem Boot.Happens.lawful {b : Boot} (h : b.Happens p) : Throughout (Lawful p) [] b.trace ∧
    ∀ identity, b.result = some (.ok identity) → Enrolled b.started := by
  obtain ⟨hostname, fuel, hexec⟩ := h.start
  obtain ⟨hlawful, hresult⟩ :=
    ensureEnrolled_meets b.config hostname fuel [] _ _ _ _ trivial hexec
  exact ⟨hlawful, fun identity hok => hresult _ hok⟩

theorem Boot.Happens.keeps_record {b : Boot} (h : b.Happens p) : Kept .record b.before b.after := by
  obtain ⟨hostname, fuel, hexec⟩ := h.start
  have hkept : Kept .record b.before b.started :=
    hexec.relates Kept.refl (fun _ _ _ => Kept.trans)
      (h.lawful.1.forall_mem fun _ _ he => he.record)
  rcases h.passes with ⟨_, hafter⟩ | ⟨_, _, _, _, hafter⟩
  · rwa [hafter]
  · rw [hafter]
    exact hkept

theorem Life.enrolled {m m' : Machine} {boots : List Boot} (h : Life p m boots m')
    (hm : Enrolled m) : Enrolled m' := by
  induction h with
  | nil m => exact hm
  | cons hbefore hboot _ ih =>
    refine ih (hboot.keeps_record.ne_none ?_)
    rw [hbefore]
    exact hm

/-- A boot that runs passes leaves a record behind. -/
theorem Boot.Happens.enrolled {b : Boot} (h : b.Happens p) {q : SyncPass StateDir}
    (hq : q ∈ b.passes) : Enrolled b.after := by
  rcases h.passes with ⟨hnone, _⟩ | ⟨identity, dir, hresult, _, hafter⟩
  · rw [hnone] at hq
    cases hq
  · rw [hafter]
    exact h.lawful.2 identity hresult

theorem enrolling_dir {m m' : Machine} {op : EnrollOp} {answer : op.Answer}
    (h : enrolling m op answer m') : m'.dir = m.dir ∨
      ∃ file contents mode, op = .writeState file contents mode ∧
        m'.dir = m.dir.install file contents := by
  by_cases hop : IsQuiet op
  · exact Or.inl (congrArg Machine.dir (enrolling_quiet h hop))
  cases op with
  | secureWrite file contents mode =>
    rcases h with ⟨_, rfl⟩ | ⟨_, rfl | rfl⟩ <;> exact Or.inl rfl
  | writeState file contents mode =>
    rcases h with ⟨_, rfl⟩ | ⟨_, rfl | rfl⟩
    · exact Or.inr ⟨file, contents, mode, rfl, rfl⟩
    · exact Or.inr ⟨file, contents, mode, rfl, rfl⟩
    · exact Or.inl rfl
  | connect =>
    obtain rfl := h
    exact Or.inl rfl
  | setLastResponse response =>
    obtain rfl := h
    exact Or.inl rfl
  | postJson url body => exact Or.inl (congrArg Machine.dir h.2)
  | _ => exact absurd trivial hop

theorem enrolling_record_cell {m m' : Machine} {contents : Bytes} {mode : UInt32}
    {answer : Except Error Unit} (h : enrolling m (.secureWrite .record contents mode) answer m') :
    m'.lastResponse = m.lastResponse := by
  rcases h with ⟨_, rfl⟩ | ⟨_, rfl | rfl⟩ <;> rfl

/-- A lawful trace from an enrolled machine keeps the record and the cell. -/
theorem remembers {α : Type} {q : Program enrollSignature α} {m m' : Machine}
    {trace : List (EnrollEvent Machine)} {result : Option α} {response : EnrollmentResponse}
    (h : Exec enrolling q m trace result m') (hlawful : ∀ e ∈ trace, ∃ past, Lawful p past e)
    (hm : Enrolled m) (hcell : m.lastResponse = some response) :
    ∀ e ∈ trace, Enrolled e.before ∧ e.before.lastResponse = some response := by
  intro e he
  refine ((h.invariant (I := fun v => Enrolled v ∧ v.lastResponse = some response)
    (fun e he hbefore => ?_) ⟨hm, hcell⟩).2 e he).1
  obtain ⟨past, hevent⟩ := hlawful e he
  exact ⟨hevent.record.ne_none hbefore.1, (hevent.cell hbefore.1).trans hbefore.2⟩

/-- What such a trace writes as a pin, and so what it leaves once it has written one. -/
theorem leaves_pin {α : Type} {q : Program enrollSignature α} {m m' : Machine}
    {trace : List (EnrollEvent Machine)} {result : Option α} {response : EnrollmentResponse}
    {key : Text} (h : Exec enrolling q m trace result m')
    (hlawful : ∀ e ∈ trace, ∃ past, Lawful p past e) (hm : Enrolled m)
    (hcell : m.lastResponse = some response) (hkey : response.bundleSigningKey = some key)
    (hpins : Pins trace) : m'.dir .signingKey = .regular (storedLine (trimText key)) := by
  have hcells := remembers h hlawful hm hcell
  have hwritten : ∀ e ∈ trace, ∀ file contents mode, e.op = .writeState file contents mode →
      contents = storedLine (trimText key) := by
    intro e he file contents mode hop
    obtain ⟨past, hevent⟩ := hlawful e he
    obtain ⟨_, _, response', key', hcell', hkey', rfl⟩ := hevent.pin file contents mode hop
    obtain rfl : response = response' := Option.some.inj ((hcells e he).2.symm.trans hcell')
    rw [Option.some.inj (hkey.symm.trans hkey')]
  obtain ⟨e, he, contents, mode, hop, hpinned⟩ := hpins
  obtain rfl := hwritten e he _ contents mode hop
  obtain ⟨first, rest, rfl⟩ := List.append_of_mem he
  obtain ⟨_, q', hrest⟩ := h.cut_event
  refine (hrest.invariant (I := fun v => v.dir .signingKey = .regular (storedLine (trimText key)))
    (fun g hg hbefore => ?_) hpinned).1
  have hmem : g ∈ first ++ e :: rest := List.mem_append_right _ (List.mem_cons_of_mem _ hg)
  rcases enrolling_dir (hrest.event_env g hg) with hsame | ⟨file, contents, mode', hop', hdir⟩
  · rwa [hsame]
  · obtain rfl := hwritten g hmem file contents mode' hop'
    rw [hdir]
    by_cases hfile : StateFile.signingKey = file
    · rw [← hfile, StateFiles.install_same]
    · rwa [StateFiles.install_other _ _ hfile]

theorem Boot.Happens.pinned {b : Boot} {response : EnrollmentResponse} {key : Text}
    (h : b.Happens p) (hproduced : Produced p b.trace response)
    (hkey : response.bundleSigningKey = some key) (hpins : Pins b.trace) :
    b.started.dir .signingKey = .regular (storedLine (trimText key)) ∧ Enrolled b.started ∧
      validateResponse p.toCrypto response = .ok () := by
  obtain ⟨past, e, rest, contents, mode, htrace, hop, hbefore, hafter, hlast⟩ := hproduced
  obtain ⟨hostname, fuel, hexec⟩ := h.start
  have hlawful := h.lawful.1
  rw [htrace] at hexec hlawful
  obtain ⟨hpast, hevent, hrest⟩ := throughout_append.mp hlawful
  obtain ⟨response', hlast', hcell, hvalid⟩ := hevent.produced contents mode hop
  obtain rfl : response = response' := Option.some.inj (hlast.symm.trans hlast')
  have hcell' : e.after.lastResponse = some response := by
    have henv := hexec.event_env e (List.mem_append_right _ (List.mem_cons_self ..))
    obtain ⟨v, op, answer, v'⟩ := e
    obtain rfl := hop
    exact (enrolling_record_cell henv).trans hcell
  obtain ⟨hfirst, q, hq⟩ := hexec.cut_event
  have hkept : Enrolled b.started := by
    refine Kept.ne_none (hq.relates Kept.refl (fun _ _ _ => Kept.trans) ?_) hafter
    exact hrest.forall_mem fun _ _ he => he.record
  refine ⟨leaves_pin hq (hrest.forall_mem fun past e he => ⟨past, he⟩) hafter hcell' hkey ?_,
    hkept, hvalid⟩
  -- no pin is written in front of the record
  obtain ⟨f, hf, contents', mode', hfop, hfpin⟩ := hpins
  have hfirst' := hfirst.relates_around (R := Kept .record) Kept.refl (fun _ _ _ => Kept.trans)
    (hpast.forall_mem fun _ _ he => he.record)
  rw [htrace] at hf
  rcases List.mem_append.mp hf with hf | hf
  · obtain ⟨past', hflawful⟩ := hpast.forall_mem (C := fun e => ∃ past, Lawful p past e)
      (fun past e he => ⟨past, he⟩) f hf
    have henrolled := (hflawful.pin _ contents' mode' hfop).1
    exact absurd ((hfirst' f hf).2.ne_none (hflawful.record.ne_none henrolled)) hbefore
  rcases List.mem_cons.mp hf with rfl | hf
  · cases hop.symm.trans hfop
  · exact ⟨f, hf, contents', mode', hfop, hfpin⟩

theorem validateResponse_key {ext : Crypto} {response : EnrollmentResponse} {key : Text}
    (h : validateResponse ext response = .ok ()) (hkey : response.bundleSigningKey = some key) :
    validateEd25519PublicKey ext key = .ok () := by
  unfold validateResponse at h
  obtain ⟨_, h⟩ := check_bind_eq_ok.mp h
  obtain ⟨_, h⟩ := check_bind_eq_ok.mp h
  obtain ⟨_, h⟩ := check_bind_eq_ok.mp h
  obtain ⟨_, h⟩ := check_bind_eq_ok.mp h
  rw [hkey] at h
  exact mapError_eq_ok.mp h

/-- A key of two fields is pinned as itself. -/
theorem pinned_of_fields {d : StateDir} {key algorithm blob : Text} {rest : List Text}
    (hfields : splitWhitespace key = algorithm :: blob :: rest)
    (hd : d .signingKey = .regular (storedLine (trimText key))) :
    Pinned d (trimText key) ∧ SameMaterial (trimText (trimText key)) key := by
  have hmaterial : material key = some (algorithm, blob) := by simp only [material, hfields]
  refine ⟨⟨hd, fun hblank => ?_⟩, ?_⟩
  · have hempty : splitWhitespace (trimText (trimText key)) = algorithm :: blob :: rest := by
      rw [splitWhitespace_trimText, splitWhitespace_trimText, hfields]
    rw [hblank] at hempty
    cases hempty
  · rw [sameMaterial_trimText, sameMaterial_trimText]
    exact ⟨_, hmaterial, hmaterial⟩

/-- Passes over a pin expect it and leave it. -/
theorem Boot.Happens.expects {b : Boot} {pin key : Text} (h : b.Happens p)
    (hoperator : b.config.bundleSigningPublicKey = none) (hpinned : Pinned b.started.dir pin)
    (hmaterial : SameMaterial (trimText pin) key) :
    Pinned b.after.dir pin ∧ ∀ q ∈ b.passes, PassExpects b q key := by
  rcases h.passes with ⟨hnone, hafter⟩ | ⟨identity, dir, hresult, hrun, hafter⟩
  · rw [hnone, hafter]
    exact ⟨hpinned, nofun⟩
  have hestablished := established_of_pinned (syncService b.config b.client identity) hoperator
    hpinned
  obtain ⟨⟨_, hend⟩, hpasses⟩ := established_run _ hrun hestablished
  constructor
  · rw [hafter]
    exact ⟨hend.trans hpinned.1, hpinned.2⟩
  · intro q hq identity' persisted trace d hresult' hload
    obtain rfl : identity = identity' := by
      cases hresult.symm.trans hresult'
      rfl
    obtain ⟨_, hnone | hloaded⟩ := reads_loadState hostile_respects _ _ _ _ hload
    · cases hnone
    refine ⟨trimText pin, ?_, hmaterial⟩
    exact expectedSigningKey_established _ (hpasses q hq).1.1 (Option.some.inj hloaded).symm

theorem Life.expects {m m' : Machine} {boots : List Boot} {pin key : Text} (h : Life p m boots m')
    (hoperator : ∀ b ∈ boots, b.config.bundleSigningPublicKey = none) (hm : Enrolled m)
    (hpinned : Pinned m.dir pin) (hmaterial : SameMaterial (trimText pin) key) :
    ∀ b ∈ boots, ∀ q ∈ b.passes, PassExpects b q key := by
  induction h with
  | nil m => simp
  | @cons m m' b boots hbefore hboot _ ih =>
    obtain ⟨hb, hboots⟩ := List.forall_mem_cons.mp hoperator
    have hstarted : b.started = b.before := by
      obtain ⟨hostname, fuel, hexec⟩ := hboot.start
      refine start_enrolled hexec ?_
      rw [hbefore]
      exact hm
    have hdir : Pinned b.started.dir pin := by
      rw [hstarted, hbefore]
      exact hpinned
    have hrecord : Enrolled b.after := by
      refine hboot.keeps_record.ne_none ?_
      rw [hbefore]
      exact hm
    obtain ⟨hafter, hexpects⟩ := hboot.expects hb hdir hmaterial
    exact List.forall_mem_cons.mpr ⟨hexpects, ih hboots hrecord hafter⟩

theorem Boot.Happens.unenrolled {b : Boot} {response : EnrollmentResponse} (h : b.Happens p)
    (hproduced : Produced p b.trace response) : ¬ Enrolled b.before := by
  obtain ⟨past, e, rest, _, _, htrace, _, hbefore, _, _⟩ := hproduced
  obtain ⟨hostname, fuel, hexec⟩ := h.start
  have hlawful := h.lawful.1
  rw [htrace] at hexec hlawful
  intro hrecord
  refine hbefore (Kept.ne_none ?_ hrecord)
  exact hexec.cut_event.1.relates Kept.refl (fun _ _ _ => Kept.trans)
    ((throughout_append.mp hlawful).1.forall_mem fun _ _ he => he.record)

/-- When every boot that writes the record for a response with a key also writes the pin, every
pass of every boot expects the key of the response that the record was written for. -/
theorem pin_survives
    (hline : ∀ line, validateEd25519PublicKey p.toCrypto line = .ok () →
      ∃ algorithm blob rest, splitWhitespace line = algorithm :: blob :: rest)
    {m m' : Machine} {boots : List Boot} (hlife : Life p m boots m')
    (hoperator : ∀ b ∈ boots, b.config.bundleSigningPublicKey = none)
    (hpinned : ∀ b ∈ boots, PinnedAtOnce p b) {b : Boot} (hb : b ∈ boots)
    {response : EnrollmentResponse} {key : Text} (hproduced : Produced p b.trace response)
    (hkey : response.bundleSigningKey = some key) :
    ∀ c ∈ boots, ∀ q ∈ c.passes, PassExpects c q key := by
  obtain ⟨first, second, rfl⟩ := List.append_of_mem hb
  obtain ⟨m₁, hfirst, hsecond⟩ := hlife.split
  have htail : ∀ c ∈ b :: second, c.config.bundleSigningPublicKey = none :=
    fun c hc => hoperator c (List.mem_append_right _ hc)
  cases hsecond with
  | cons hbefore hboot hrest =>
    have hunenrolled := hboot.unenrolled hproduced
    obtain ⟨hpin, hrecord, hvalid⟩ :=
      hboot.pinned hproduced hkey (hpinned b hb response key hproduced hkey)
    obtain ⟨algorithm, blob, rest, hfields⟩ := hline key (validateResponse_key hvalid hkey)
    obtain ⟨hstarted, hmaterial⟩ := pinned_of_fields hfields hpin
    obtain ⟨hafter, hexpects⟩ :=
      hboot.expects (htail b (List.mem_cons_self ..)) hstarted hmaterial
    intro c hc q hq
    rcases List.mem_append.mp hc with hc | hc
    · -- a pass before this boot needs a record that is not there yet
      obtain ⟨earlier, later, rfl⟩ := List.append_of_mem hc
      obtain ⟨m₂, _, hlater⟩ := hfirst.split
      cases hlater with
      | cons _ hc hlater =>
        refine absurd ?_ hunenrolled
        rw [hbefore]
        exact hlater.enrolled (hc.enrolled hq)
    rcases List.mem_cons.mp hc with rfl | hc
    · exact hexpects q hq
    · have hkept : Enrolled b.after := by
        rcases hboot.passes with ⟨_, hdone⟩ | ⟨_, _, _, _, hdone⟩
        · rwa [hdone]
        · rw [hdone]
          exact hrecord
      exact hrest.expects (fun c hc => htail c (List.mem_cons_of_mem _ hc)) hkept hafter
        hmaterial c hc q hq

/-! The sample machine, in a boot that goes well and in one that is killed before it looks for a
pin. -/

def sampleConfig : Config := ⟨sampleUrl, none⟩

def sampleStart : Program enrollSignature (Except Error MachineIdentity) :=
  (ensureEnrolled samplePlatform sampleConfig sampleHost 1).run

def sampleIdentity : MachineIdentity where
  machineId := text "machine-01"
  hostname := sampleHost
  publicKey := samplePublicLine
  enrolledAt := sampleNow
  serverUrl := sampleUrl
  heartbeatInterval := 60
  syncInterval := 300

def sampleRecordBytes : Bytes := encodeUtf8 (recordJson sampleRecord) ++ encodeUtf8 ['\n']

def accepting : HttpResponse := ⟨200, sampleResponseBody⟩

def beforePin : EnrollOp → Bool
  | .readState _ => true
  | .writeState _ _ _ => true
  | _ => false

abbrev Played := List (EnrollEvent Machine) × Option (Except Error MachineIdentity) × Machine

def sampleBooted : Played :=
  play (Script.answer ⟨accepting, fun _ => false⟩) sampleStart emptyMachine

def sampleCut : Played :=
  play (Script.answer ⟨accepting, beforePin⟩) sampleStart emptyMachine

/-- The event writes the sample record, for the sample response. -/
def writesRecord (e : EnrollEvent Machine) : Bool :=
  decide (e.op = .secureWrite .record sampleRecordBytes modePublic ∧
    e.before.identity .record = none ∧ e.after.identity .record = some sampleRecordBytes ∧
    e.before.lastResponse = some sampleResponse)

theorem sampleCut_machine : sampleCut.1.any writesRecord = true ∧ sampleCut.2.1.isNone = true ∧
    sampleCut.2.2.identity .privateKey = some (encodeUtf8 samplePem) ∧
    sampleCut.2.2.identity .record = some sampleRecordBytes := by decide +kernel

def writesPin (e : EnrollEvent Machine) : Bool :=
  decide (e.op = .writeState .signingKey (storedLine (trimText golden.signingKey)) modePublic ∧
    e.after.dir .signingKey = .regular (storedLine (trimText golden.signingKey)))

theorem sampleBooted_machine : sampleBooted.1.any writesRecord = true ∧
    sampleBooted.1.any writesPin = true ∧
    sampleBooted.2.1.bind Except.toOption = some sampleIdentity ∧
    sampleBooted.2.2.dir .generation = .missing ∧ sampleBooted.2.2.dir .fingerprint = .missing := by
  decide +kernel

theorem produced_of_any {trace : List (EnrollEvent Machine)}
    (h : Throughout (Lawful p) [] trace) (hany : trace.any writesRecord = true) :
    Produced p trace sampleResponse := by
  obtain ⟨e, he, hwrites⟩ := List.any_eq_true.mp hany
  obtain ⟨hop, hbefore, hafter, hcell⟩ := of_decide_eq_true hwrites
  obtain ⟨past, rest, rfl⟩ := List.append_of_mem he
  obtain ⟨response, hlast, hcell', _⟩ := h.middle.produced _ _ hop
  obtain rfl : sampleResponse = response := Option.some.inj (hcell.symm.trans hcell')
  refine ⟨past, e, rest, _, _, rfl, hop, not_not.mpr hbefore, ?_, hlast⟩
  rw [Enrolled, hafter]
  exact Option.some_ne_none _

/-- Reading the keypair parses no record. -/
theorem readKeypair_with (p : Platform) (parse : Bytes → Option MachineRecord) :
    readKeypair { p with recordFromJson := parse } = readKeypair p := rfl

/-- The sample machine loads whatever record it has. -/
theorem sample_load (reply : HttpResponse) {m : Machine} (parse : Bytes → Option MachineRecord)
    {bytes : Bytes} {record : MachineRecord} {identity : MachineIdentity}
    (hkey : m.identity .privateKey = some (encodeUtf8 samplePem))
    (hrecord : m.identity .record = some bytes) (hparse : parse bytes = some record)
    (hinto : record.intoIdentity samplePublicLine = .ok identity) :
    outcome (Script.answer ⟨reply, fun _ => false⟩)
      (loadMachineIdentity { samplePlatform with recordFromJson := parse }).run m =
      (some (.ok identity), m) := by
  have hdisk : KeyOnDisk samplePlatform m sampleKeypair :=
    ⟨_, samplePem, hkey, decodeUtf8_encodeUtf8 samplePem, if_pos rfl⟩
  have hpublic : publicKeyOpenssh { samplePlatform with recordFromJson := parse } sampleKeypair =
      .ok samplePublicLine := okOr_eq_ok.mpr (if_pos rfl)
  have hread : (Script.answer ⟨reply, fun _ => false⟩) m (.read .record) =
      some (.ok bytes, m) := by simp [Script.answer, reachable, hrecord, okOr]
  have hload : outcome (Script.answer ⟨reply, fun _ => false⟩)
      (loadRecord { samplePlatform with recordFromJson := parse }).run m =
      (some (.ok record), m) := by
    refine (outcome_action_ok _ (outcome_ask _ hread)).trans ?_
    have hok : okOr (parse bytes) Error.machineRecordParse = .ok record := okOr_eq_ok.mpr hparse
    exact congrArg (fun r : Except Error MachineRecord => (some r, m)) hok
  unfold loadMachineIdentity
  rw [readKeypair_with]
  refine (outcome_action_ok _ (sample_readKeypair hdisk)).trans ?_
  rw [hpublic, ofExcept_ok_bind, outcome_action_ok _ hload, hinto]
  rfl

theorem sample_loadMachineIdentity {reply : HttpResponse} {m : Machine}
    (hkey : m.identity .privateKey = some (encodeUtf8 samplePem))
    (hrecord : m.identity .record = some sampleRecordBytes) :
    outcome (Script.answer ⟨reply, fun _ => false⟩) (loadMachineIdentity samplePlatform).run m =
      (some (.ok sampleIdentity), m) :=
  sample_load reply samplePlatform.recordFromJson hkey hrecord (if_pos rfl) rfl

/-- A boot that finds the record only loads it. -/
theorem sample_restart {m : Machine} (hkey : m.identity .privateKey = some (encodeUtf8 samplePem))
    (hrecord : m.identity .record = some sampleRecordBytes) :
    (play (Script.answer ⟨accepting, fun _ => false⟩) sampleStart (Machine.restarted m)).2 =
      (some (.ok sampleIdentity), Machine.restarted m) := by
  have hkey' : (Machine.restarted m).identity .privateKey = some (encodeUtf8 samplePem) := hkey
  have hrecord' : (Machine.restarted m).identity .record = some sampleRecordBytes := hrecord
  have hfile : (Script.answer ⟨accepting, fun _ => false⟩) (Machine.restarted m) (.isFile .record) =
      some (true, Machine.restarted m) := by
    simp only [Script.answer, reachable, hrecord']
    rfl
  exact (outcome_call hfile).trans (sample_loadMachineIdentity hkey' hrecord')

theorem sampleCut_exec : Exec (fun m op answer m' => enrolling m op answer m' ∧ m'.dir = m.dir)
    sampleStart emptyMachine sampleCut.1 sampleCut.2.1 sampleCut.2.2 := by
  refine exec_play (fun m op answer m' h => ⟨script_enrolling _ _ _ _ _ h, ?_⟩) _ _
  rcases enrolling_dir (script_enrolling _ _ _ _ _ h) with hsame | ⟨file, contents, mode, rfl, _⟩
  · exact hsame
  · cases h

def bootOf (played : Played) (before : Machine) (passes : List (SyncPass StateDir))
    (dir : StateDir) : Boot where
  config := sampleConfig
  client := sampleClient
  before := before
  trace := played.1
  result := played.2.1
  started := played.2.2
  passes := passes
  after := { played.2.2 with dir := dir }

theorem samplePlatform_line (line : Text)
    (h : validateEd25519PublicKey samplePlatform.toCrypto line = .ok ()) :
    ∃ algorithm blob rest, splitWhitespace line = algorithm :: blob :: rest := by
  unfold validateEd25519PublicKey at h
  split at h
  · cases h
  split at h
  · rename_i key hkey
    obtain ⟨known, comment, rfl⟩ := sampleCrypto_line hkey
    exact ⟨_, _, _, opensshLine_fields known comment⟩
  · cases h

theorem pins_of_any {trace : List (EnrollEvent Machine)} (h : trace.any writesPin = true) :
    Pins trace := by
  obtain ⟨e, he, hwrites⟩ := List.any_eq_true.mp h
  obtain ⟨hop, hafter⟩ := of_decide_eq_true hwrites
  exact ⟨e, he, _, _, hop, hafter⟩

/-- After a boot that goes well a pass expects the key of the response. -/
theorem pin_survives_sample : ∃ boots m', Life samplePlatform emptyMachine boots m' ∧
    ∃ b ∈ boots, ∃ q ∈ b.passes, PassExpects b q golden.signingKey ∧
      ∃ persisted trace,
        Exec hostile loadState.run q.before trace (some (.ok persisted)) q.before := by
  obtain ⟨played, hexec, hany, hpin, hresult, hgeneration, hfingerprint⟩ : ∃ played : Played,
      Exec enrolling sampleStart emptyMachine played.1 played.2.1 played.2.2 ∧
      played.1.any writesRecord = true ∧ played.1.any writesPin = true ∧
      played.2.1.bind Except.toOption = some sampleIdentity ∧
      played.2.2.dir .generation = .missing ∧ played.2.2.dir .fingerprint = .missing :=
    ⟨sampleBooted, exec_play (script_enrolling _) _ _, sampleBooted_machine⟩
  let q : SyncPass StateDir := ⟨played.2.2.dir, [], none, played.2.2.dir⟩
  let b := bootOf played emptyMachine [q] played.2.2.dir
  have hok : played.2.1 = some (.ok sampleIdentity) := by
    rcases hplayed : played.2.1 with _ | _ | identity <;> rw [hplayed] at hresult
    · cases hresult
    · cases hresult
    · rw [Option.some.inj hresult]
  have hboot : b.Happens samplePlatform := ⟨⟨sampleHost, 1, hexec⟩,
    Or.inr ⟨sampleIdentity, _, hok, Run.single (Exec.killed _ _), rfl⟩⟩
  have hproduced : Produced samplePlatform b.trace sampleResponse :=
    produced_of_any hboot.lawful.1 hany
  have hlife : Life samplePlatform emptyMachine [b] b.after := Life.cons rfl hboot (Life.nil _)
  have hexpects := pin_survives samplePlatform_line hlife (by simp [b, bootOf, sampleConfig])
    (fun c hc _ _ _ _ => by
      obtain rfl := List.mem_singleton.mp hc
      exact pins_of_any hpin)
    (List.mem_singleton_self b) hproduced rfl b (List.mem_singleton_self b) q
    (List.mem_singleton_self q)
  refine ⟨[b], b.after, hlife, b, List.mem_singleton_self b, q, List.mem_singleton_self q,
    hexpects, ?_⟩
  obtain ⟨hline, _, _⟩ := hboot.pinned hproduced rfl (pins_of_any hpin)
  obtain ⟨⟨hdir, hne⟩, _⟩ := pinned_of_fields (opensshLine_fields _ _) hline
  have hload : StateDir.load played.2.2.dir = .ok
      ⟨none, none, some (trimText (trimText golden.signingKey))⟩ :=
    load_eq_ok.mpr ⟨readGeneration_missing hgeneration, readString_missing hfingerprint,
      readString_storedLine hdir hne⟩
  obtain ⟨trace, hloaded⟩ := loads (hostile_working sampleNow) hload
  exact ⟨_, trace, hloaded⟩

/-- A boot that was cut off behind the record, and the boot that follows. -/
theorem lost_after_cut {cut : Played}
    (hcut : Exec enrolling sampleStart emptyMachine cut.1 cut.2.1 cut.2.2)
    (hany : cut.1.any writesRecord = true) (hdir : cut.2.2.dir = StateDir.empty)
    (hkey : cut.2.2.identity .privateKey = some (encodeUtf8 samplePem))
    (hrecord : cut.2.2.identity .record = some sampleRecordBytes) :
    ∃ boots m', Life samplePlatform emptyMachine boots m' ∧
      (∀ b ∈ boots, b.config.bundleSigningPublicKey = none) ∧
      (∃ b ∈ boots, Produced samplePlatform b.trace sampleResponse) ∧
      ∃ c ∈ boots, ∃ q ∈ c.passes, ¬ PassExpects c q golden.signingKey := by
  obtain ⟨q, hq, hpass, _⟩ := golden_run
  let restarted := Machine.restarted cut.2.2
  let next : Played := play (Script.answer ⟨accepting, fun _ => false⟩) sampleStart restarted
  have hnext : next.2 = (some (.ok sampleIdentity), restarted) := sample_restart hkey hrecord
  have hfirst : (bootOf cut emptyMachine [] cut.2.2.dir).Happens samplePlatform :=
    ⟨⟨sampleHost, 1, hcut⟩, Or.inl ⟨rfl, rfl⟩⟩
  have hempty : next.2.2.dir = q.before := by
    rw [hnext, hq]
    exact hdir
  have hrun : Run hostile (SyncProgress.sampleService none).synchronize.run next.2.2.dir [q]
      q.after := by
    rw [hempty]
    exact Run.single hpass
  have hok : next.2.1 = some (.ok sampleIdentity) := congrArg Prod.fst hnext
  have hsecond : (bootOf next restarted [q] q.after).Happens samplePlatform :=
    ⟨⟨sampleHost, 1, exec_play (script_enrolling _) _ _⟩,
      Or.inr ⟨sampleIdentity, q.after, hok, hrun, rfl⟩⟩
  refine ⟨[bootOf cut emptyMachine [] cut.2.2.dir, bootOf next restarted [q] q.after], _,
    Life.cons rfl hfirst (Life.cons rfl hsecond (Life.nil _)), ?_, ?_, ?_⟩
  · simp [bootOf, sampleConfig]
  · exact ⟨_, List.mem_cons_self .., produced_of_any hfirst.lawful.1 hany⟩
  · refine ⟨_, List.mem_cons_of_mem _ (List.mem_singleton_self _), q, List.mem_singleton_self q, ?_⟩
    intro hexpects
    have hunstored : StateDir.load q.before = .ok unstored := hq ▸ load_unstored rfl rfl rfl
    obtain ⟨trace, hload⟩ := loads (hostile_working sampleNow) hunstored
    obtain ⟨expected, hexpected, _⟩ := hexpects sampleIdentity unstored trace _ hok hload
    cases hexpected

/-- The daemon is killed between the record and the pin. In the next boot the record is there, and
the pass expects no key at all. -/
theorem pin_lost : (∃ boots m', Life samplePlatform emptyMachine boots m' ∧
      (∀ b ∈ boots, b.config.bundleSigningPublicKey = none) ∧
      (∃ b ∈ boots, Produced samplePlatform b.trace sampleResponse) ∧
      ∃ c ∈ boots, ∃ q ∈ c.passes, ¬ PassExpects c q golden.signingKey) ∧
    sampleResponse.bundleSigningKey = some golden.signingKey := by
  obtain ⟨hany, _, hkey, hrecord⟩ := sampleCut_machine
  have hdir := sampleCut_exec.frame Machine.dir fun e he => (sampleCut_exec.event_env e he).2
  exact ⟨lost_after_cut (sampleCut_exec.mono fun _ _ _ _ h => h.1) hany hdir hkey hrecord, rfl⟩

end MayflyAgent.Boots
