import MayflyAgent.Attempts
import MayflyAgent.Lifecycles

/-!
What holds over the whole life of a machine, from the first start of the daemon on. The recorded
generation never goes down, and a pin that the operator provisioned or that the pin file holds stays
the one pin: no enrollment and no pass writes over it, and every file that any process hands to the
helper is authentic under it.
-/
namespace MayflyAgent.LifeInvariants

open RustText Programs Contracts Checks Errors Bundles BundleValidation TrustedCa StateFiles CaSync
open Enrollment EnrollmentRuns Boots Daemons Lifecycles
open SyncCourses (GenerationLe)
open SyncProgress (golden_pass load_unstored sample_applies sampleApply sampleBody_golden)
open SyncCourses (recordLine)
open SyncRuns (EstablishedPin Authentic established_pass established_run pass_authentic
  pass_generation_mono readString_regular hostile)

variable {b : Build}

def computers (processes : List Process) : List Computer :=
  processes.flatMap fun x => x.before :: x.trace.map Event.after

/-- What restarts and events relate, the whole life does. -/
theorem lifetime_ordered {R : Computer → Computer → Prop} (hrefl : ∀ v, R v v)
    (htrans : ∀ u v x, R u v → R v x → R u x) (hrestart : ∀ v, R v v.restarted)
    {w w' : Computer} {processes : List Process}
    (hevent : ∀ x ∈ processes, x.Happens b → ∀ e ∈ x.trace, R e.before e.after)
    (h : Lifetime b w processes w') :
    (computers processes ++ [w']).Pairwise R ∧ ∀ v ∈ computers processes ++ [w'], R w v := by
  induction h with
  | nil w => simp [computers, hrefl]
  | @cons w w' x processes hbefore hprocess _ ih =>
    obtain ⟨hx, hprocesses⟩ := List.forall_mem_cons.mp hevent
    obtain ⟨hrest, hstart⟩ := ih hprocesses
    obtain ⟨_, _, hexec⟩ := id hprocess
    obtain ⟨hfirst, hmid⟩ := hexec.ordered hrefl htrans (hx hprocess)
    have hcomputers : computers (x :: processes) ++ [w'] =
        (x.before :: x.trace.map Event.after) ++ (computers processes ++ [w']) := by
      simp [computers]
    have hcross : ∀ u ∈ x.before :: x.trace.map Event.after,
        ∀ v ∈ computers processes ++ [w'], R u v :=
      fun u hu v hv => htrans _ _ _ (hmid u hu) (hstart v hv)
    have hw : R w x.before := hbefore ▸ hrestart w
    rw [hcomputers]
    refine ⟨List.pairwise_append.mpr ⟨hfirst, hrest, hcross⟩, fun v hv => ?_⟩
    rcases List.mem_append.mp hv with hv | hv
    · rcases List.mem_cons.mp hv with rfl | hv
      · exact hw
      · exact htrans _ _ _ hw (List.rel_of_pairwise_cons hfirst hv)
    · exact htrans _ _ _ hw (hcross x.before (List.mem_cons_self ..) v hv)

theorem lifetime_happens {w w' : Computer} {processes : List Process}
    (h : Lifetime b w processes w') : ∀ x ∈ processes, x.Happens b := by
  induction h with
  | nil w => simp
  | cons _ hprocess _ ih => exact List.forall_mem_cons.mpr ⟨hprocess, ih⟩

/-- An event is one of enrollment, one of a pass, or leaves the machine alone. -/
theorem event_cases (e : AgentEvent Computer) : IsOwn e.op ∨
    (∃ e' : EnrollEvent Computer, e = Event.inr e'.inl ∧ isRequesting e'.op = true) ∨
    ∃ e' : SyncEvent Computer, e = Event.inl e'.inl ∧ isWork e'.op = true := by
  obtain ⟨before, op, answer, after⟩ := e
  rcases op with (op | op) | (op | op)
  · by_cases hop : isWork op = true
    · exact Or.inr (Or.inr ⟨⟨before, op, answer, after⟩, rfl, hop⟩)
    · exact Or.inl (Bool.eq_false_iff.mpr hop)
  · exact Or.inl trivial
  · by_cases hop : isRequesting op = true
    · exact Or.inr (Or.inl ⟨⟨before, op, answer, after⟩, rfl, hop⟩)
    · exact Or.inl (Bool.eq_false_iff.mpr hop)
  · exact Or.inl trivial

section Mirrored

variable {state : AppState} {w w' : Computer} {trace : List (AgentEvent Computer)} {boot : Boot}

/-- The work of a process is done by the passes of its boot, and what such a pass did before is the
end of what the process did. -/
theorem passes_work (h : Mirrors b state w trace w' boot) (hboot : boot.Happens b.toPlatform)
    {e : SyncEvent Computer} (hop : isWork e.op = true) {first rest : List (AgentEvent Computer)}
    (htrace : trace = first ++ Event.inl e.inl :: rest) :
    ∃ identity q past head tail, q ∈ boot.passes ∧ boot.result = some (.ok identity) ∧
      Exec hostile (syncService boot.config boot.client identity).synchronize.run
        q.before q.trace q.result q.after ∧
      first = past ++ synced head ∧ q.trace = head.map (Event.map fun w => w.machine.dir) ++
        e.map (fun w => w.machine.dir) :: tail := by
  obtain ⟨front, inner, behind, hcourse, hreading, _, hpasses⟩ := h.course
  obtain ⟨past, hbehind⟩ : ∃ past, first = front ++ enrolled inner ++ past ∧
      behind = past ++ Event.inl e.inl :: rest := by
    rcases split_append (htrace.symm.trans hcourse) with ⟨mid, rfl, _⟩ | ⟨mid, rfl, hmid⟩
    · have hread : isWork e.op = false := hreading (Event.inl e.inl) (by simp)
      rw [hread] at hop
      cases hop
    rcases split_append hmid.symm with ⟨tail, hinner, _⟩ | ⟨past, rfl, hrest⟩
    · have hmem : Event.inl e.inl ∈ enrolled inner := hinner ▸ by simp
      obtain ⟨_, _, hevent⟩ := List.mem_map.mp hmem
      exact absurd (congrArg Event.op hevent) Sum.inr_ne_inl
    · exact ⟨past, (List.append_assoc ..).symm, hrest⟩
  obtain ⟨rfl, hbehind⟩ := hbehind
  obtain ⟨q, hq, before, head, tail, rfl, hpass⟩ := hpasses.pass_at hop hbehind
  rcases hboot.passes with ⟨hnone, _⟩ | ⟨identity, dir, hresult, hrun, _⟩
  · rw [hnone] at hq
    cases hq
  · have hexecs := (hrun.invariant (I := fun _ => True) (C := fun _ => True)
      (fun _ _ _ _ => trivial) (fun _ _ => trivial) trivial).2
    exact ⟨identity, q, front ++ enrolled inner ++ before, head, tail, hq, hresult, (hexecs q hq).2,
      (List.append_assoc ..).symm, hpass⟩

/-- The requests and writes of its enrollment are made by the start of its boot. -/
theorem start_requests (h : Mirrors b state w trace w' boot) {e : EnrollEvent Computer}
    (hop : isRequesting e.op = true) (he : Event.inr e.inl ∈ trace) :
    e.map Computer.machine ∈ boot.trace := by
  obtain ⟨first, inner, rest, rfl, hreading, hboot, hpasses⟩ := h.course
  rw [hboot]
  rcases List.mem_append.mp he with he | he
  · have hread : isRequesting e.op = false := hreading _ he
    rw [hread] at hop
    cases hop
  rcases List.mem_append.mp he with he | he
  · obtain ⟨middle, hmiddle, heq⟩ := List.mem_map.mp he
    obtain ⟨e', he', rfl⟩ := List.mem_map.mp hmiddle
    obtain rfl := Event.inl_injective (Event.inr_injective heq)
    exact List.mem_map_of_mem he'
  · rcases hpasses.mem he with hown | ⟨_, heq⟩
    · rw [show isRequesting e.op = false from hown] at hop
      cases hop
    · exact absurd (congrArg Event.op heq) Sum.inr_ne_inl

end Mirrored

def GenerationKept (w w' : Computer) : Prop := GenerationLe w.machine.dir w'.machine.dir

/-- Enrollment writes no state file but the pin. -/
theorem start_writes {boot : Boot} (hboot : boot.Happens b.toPlatform) {e : EnrollEvent Machine}
    (he : e ∈ boot.trace) : e.after.dir .generation = e.before.dir .generation := by
  obtain ⟨hostname, fuel, hexec⟩ := hboot.start
  obtain ⟨past, hlawful⟩ := hboot.lawful.1.forall_mem (C := fun e => ∃ past, Lawful _ past e)
    (fun past e h => ⟨past, h⟩) e he
  rcases enrolling_dir (hexec.event_env e he) with hsame | ⟨file, contents, mode, hop, hdir⟩
  · rw [hsame]
  · obtain ⟨_, rfl, _⟩ := hlawful.pin file contents mode hop
    rw [hdir]
    exact StateFiles.install_other _ _ (by decide)

theorem process_generation {x : Process} (h : x.Happens b) :
    ∀ e ∈ x.trace, GenerationKept e.before e.after := by
  obtain ⟨enrollFuel, pollFuel, hexec⟩ := h
  obtain ⟨boot, hboot, hmirrors⟩ := process_boot hexec
  intro e he
  rcases event_cases e with hown | ⟨e', rfl, hop⟩ | ⟨e', rfl, hop⟩
  · rw [GenerationKept, own_machine hown (hexec.event_env e he)]
    exact GenerationLe.refl _
  · exact GenerationLe.of_same (start_writes hboot (start_requests hmirrors hop he))
  · obtain ⟨first, rest, htrace⟩ := List.append_of_mem he
    obtain ⟨identity, q, _, head, tail, _, _, hpass, _, hq⟩ :=
      passes_work hmirrors hboot hop htrace
    exact pass_generation_mono _ hpass (e'.map fun w => w.machine.dir) (hq ▸ by simp)

/-- Over the life of a machine the recorded generation never goes down. -/
theorem life_generation {w w' : Computer} {processes : List Process}
    (h : Lifetime b w processes w') : (computers processes ++ [w']).Pairwise GenerationKept :=
  (lifetime_ordered (R := GenerationKept) (fun _ => GenerationLe.refl _)
    (fun _ _ _ => GenerationLe.trans) (fun _ => GenerationLe.refl _)
    (fun _ _ hx => process_generation hx) h).1

/-- The first bundle is fetched and applied, and its generation recorded. -/
theorem golden_life : ∃ x : Process, Lifetime sampleBuild resting [x] x.after ∧
    (∃ e ∈ x.trace,
      e.after.machine.dir .generation = .regular (recordLine golden.bundle .generation)) ∧
    ∃ e ∈ x.trace, ∃ request, e.op = .inl (.inl (.get request)) := by
  obtain ⟨trace, outcome, w', hpass, happlied, ⟨v, v', answer, hwritten, hwrite⟩, _⟩ :=
    golden_pass sampleSyncing_works (w := beaten none) (load_unstored rfl rfl rfl) rfl
      (fun _ => sampleSyncing_serves _ _)
  obtain ⟨pin, hoffered⟩ := happlied.offered
  obtain ⟨_, u, u', request, response, hget, _⟩ := hoffered.received
  obtain ⟨front, hprocess⟩ := sample_process hpass
  exact ⟨_, Lifetime.cons (w := resting) rfl hprocess (Lifetime.nil w'),
    ⟨_, List.mem_append_right front (synced_mem hwrite), hwritten⟩,
    ⟨_, List.mem_append_right front (synced_mem hget), request, rfl⟩⟩

theorem life_generation_sample : ∃ x : Process, Lifetime sampleBuild resting [x] x.after ∧
    (∃ e ∈ x.trace,
      e.after.machine.dir .generation = .regular (recordLine golden.bundle .generation)) ∧
    (computers [x] ++ [x.after]).Pairwise GenerationKept := by
  obtain ⟨x, hlife, hrecorded, _⟩ := golden_life
  exact ⟨x, hlife, hrecorded, life_generation hlife⟩

/-- The pin file holds the pin as its trimmed text. -/
def FilePin (d : StateDir) (pin : Text) : Prop :=
  pin ≠ [] ∧ ∃ bytes t, d .signingKey = .regular bytes ∧ decodeUtf8 bytes = some t ∧
    trimText t = pin

/-- The operator provisioned the pin, or the pin file holds it. -/
def PinnedBy (config : Enrollment.Config) (pin : Text) (d : StateDir) : Prop :=
  config.bundleSigningPublicKey = some pin ∨
    config.bundleSigningPublicKey = none ∧ FilePin d pin

theorem PinnedBy.congr {config : Enrollment.Config} {pin : Text} {d d' : StateDir}
    (h : PinnedBy config pin d) (hd : d' .signingKey = d .signingKey) : PinnedBy config pin d' := by
  rwa [PinnedBy, FilePin, hd]

theorem PinnedBy.established {config : Enrollment.Config} {pin : Text} {d : StateDir}
    (h : PinnedBy config pin d) (client : Client) (identity : MachineIdentity) :
    EstablishedPin (syncService config client identity) d pin := h

section Enrolling

variable {α β : Type} {p : Platform} {config : Enrollment.Config} {pin : Text}

def WritesState : EnrollOp → Prop
  | .writeState _ _ _ => True
  | _ => False

abbrev Unpinning (_ : List (EnrollEvent Machine)) (e : EnrollEvent Machine) : Prop :=
  ¬ WritesState e.op

/-- Enrollment that starts under the pin writes no other, and keeps it. -/
abbrev KeepsPin (config : Enrollment.Config) (pin : Text) (x : EnrollAction α) : Prop :=
  Meets enrolling Unpinning (fun _ m => PinnedBy config pin m.dir) x.run
    (Returns (fun _ _ m => PinnedBy config pin m.dir) fun _ _ m => PinnedBy config pin m.dir)

theorem keepsPin_of_calls {x : EnrollAction α} (hx : x.run.Calls fun op => ¬ WritesState op) :
    KeepsPin config pin x := by
  refine meets_keeps_action hx fun past m op answer m' hop hpin henv => ⟨hop, ?_⟩
  rcases enrolling_dir henv with hsame | ⟨file, contents, mode, rfl, _⟩
  · rwa [hsame]
  · exact absurd trivial hop

theorem calls_attempted (token hostname : Text) :
    (attemptEnrollment p config token hostname).run.Calls fun op => ¬ WritesState op := by
  refine (Attempts.ends_attemptEnrollment config token hostname).calls.mono fun op hop => ?_
  cases op <;> first | exact not_false | exact hop.elim

theorem calls_retryWithBackoff {op : EnrollAction α} {P : EnrollOp → Prop} (hop : op.run.Calls P)
    (hrequested : P .shutdownRequested) (hsleep : ∀ attempt, P (.sleep attempt)) (fuel : Nat) :
    ∀ attempt lastErr, (retryWithBackoff op attempt lastErr fuel).run.Calls P := by
  induction fuel with
  | zero => exact fun _ _ => trivial
  | succ fuel ih =>
    intro attempt lastErr
    refine calls_bind (calls_perform hrequested) fun seen => ?_
    split
    · trivial
    refine calls_bind (calls_attempt hop) fun outcome => ?_
    split
    · trivial
    refine calls_bind (calls_perform hrequested) fun seen => ?_
    split
    · trivial
    exact calls_bind (calls_perform (hsleep _)) fun _ => ih _ _

theorem filePin_read {d : StateDir} (h : FilePin d pin) :
    stringOf (readEntry (d .signingKey)) = .ok (some pin) := by
  obtain ⟨hne, bytes, t, hfile, ht, rfl⟩ := h
  exact readString_regular hfile ht hne

theorem pinBundleSigningKey_keepsPin (key : Option Text) :
    KeepsPin config pin (pinBundleSigningKey config key) := by
  unfold pinBundleSigningKey
  split
  · exact meets_pure fun _ _ h => h
  rename_i hoperator
  split
  · exact meets_pure fun _ _ h => h
  refine Meets.andThen (meets_perform (M := fun (answer : Except ReadError Bytes) _ m =>
    PinnedBy config pin m.dir ∧ stringOf answer = .ok (some pin))
    fun past m answer m' hpin henv => ?_) fun answer => ?_
  · obtain ⟨rfl, rfl⟩ := henv
    refine ⟨not_false, hpin, ?_⟩
    rcases hpin with hsome | ⟨_, hfile⟩
    · exact absurd (by simp [hsome]) hoperator
    · exact filePin_read hfile
  refine meets_of_fact (fun _ _ h => h.2) fun hread => ?_
  rw [hread, ofExcept_ok_bind]
  exact meets_pure fun _ _ h => h.1

theorem ensureEnrolled_keepsPin (hostname : Text) (fuel : Nat) :
    KeepsPin config pin (ensureEnrolled p config hostname fuel) := by
  have hask : ∀ op : EnrollOp, ¬ WritesState op → KeepsPin config pin (ask op) :=
    fun op hop => keepsPin_of_calls (calls_perform hop)
  have hcheck : ∀ {α : Type} {r : Except Error α}, KeepsPin config pin (Action.ofExcept r) :=
    keepsPin_of_calls trivial
  refine Meets.andThen (hask (.isFile .record) not_false) fun found => ?_
  split
  · exact keepsPin_of_calls (Attempts.ends_loadMachineIdentity.calls.mono fun op hop => by
      cases op <;> first | exact not_false | exact hop.elim)
  refine Meets.andThen (hask _ not_false) fun token => Meets.andThen hcheck fun token => ?_
  refine Meets.andThen hcheck fun _ => Meets.andThen (hask .connect not_false) fun client => ?_
  refine Meets.andThen hcheck fun _ => Meets.andThen (keepsPin_of_calls (calls_retryWithBackoff
    (calls_attempted token hostname) not_false (fun _ => not_false) fuel 0 none)) fun identity => ?_
  refine Meets.andThen (hask _ not_false) fun answer => ?_
  split
  · exact Meets.andThen (pinBundleSigningKey_keepsPin _) fun _ => meets_pure fun _ _ h => h
  · exact meets_pure fun _ _ h => h

end Enrolling

section Authentic

variable {state : AppState} {pin : Text} {w w' : Computer} {trace : List (AgentEvent Computer)}
  {boot : Boot}

/-- A boot under the pin leaves the pin file alone, and each of its passes starts under the pin. -/
theorem boot_pinned (h : boot.Happens b.toPlatform)
    (hpin : PinnedBy boot.config pin boot.before.dir) :
    (∀ e ∈ boot.trace, e.after.dir .signingKey = e.before.dir .signingKey) ∧
      boot.after.dir .signingKey = boot.before.dir .signingKey ∧
      ∀ q ∈ boot.passes, PinnedBy boot.config pin q.before := by
  obtain ⟨hostname, fuel, hexec⟩ := h.start
  have hunpinning := (ensureEnrolled_keepsPin (p := b.toPlatform) hostname fuel [] _ _ _ _ hpin
    hexec).1.forall_mem (C := fun e => ¬ WritesState e.op) fun _ _ h => h
  have hevent : ∀ e ∈ boot.trace, e.after.dir .signingKey = e.before.dir .signingKey := by
    intro e he
    rcases enrolling_dir (hexec.event_env e he) with hsame | ⟨file, contents, mode, hop, _⟩
    · rw [hsame]
    · exact absurd (hop ▸ trivial) (hunpinning e he)
  have hstarted : boot.started.dir .signingKey = boot.before.dir .signingKey :=
    hexec.frame (fun m => m.dir .signingKey) hevent
  refine ⟨hevent, ?_⟩
  rcases h.passes with ⟨hnone, hafter⟩ | ⟨identity, dir, _, hrun, hafter⟩
  · rw [hnone, hafter]
    exact ⟨hstarted, fun _ h => by cases h⟩
  · obtain ⟨⟨_, hend⟩, hpasses⟩ := established_run _ hrun
      ((hpin.congr hstarted).established boot.client identity)
    rw [hafter]
    exact ⟨hend.trans hstarted, fun q hq => (hpasses q hq).1.1⟩

def fetched : AgentEvent Computer → Option HttpResponse
  | ⟨_, .inl (.inl (.get _)), .ok response, _⟩ => some response
  | _ => none

/-- The contents render a bundle of a response that was fetched before, validated under the pin by
the reading of the clock that stands last, and signed by a key with its material. -/
def Vouched (b : Build) (pin : Text) (past : List (AgentEvent Computer)) (contents : Text) : Prop :=
  ∃ front v now v' response raw bundle, past = front ++ [⟨v, .inl (.inl .now), now, v'⟩] ∧
    (∃ e ∈ front, fetched e = some response) ∧ b.bundleFromJson response.body = some raw ∧
    fromResponse b.toCrypto raw now (some pin) = .ok bundle ∧
    SignatureVerifies b.toCrypto (encodeUtf8 (receivedPayload raw)) (raw.signature.getD [])
      bundle.signingPublicKey ∧
    SameMaterial pin bundle.signingPublicKey ∧ contents = renderTrustedUserCaKeys bundle

def IsApply (contents : Text) (op : agentSignature.Op) : Prop := op = .inl (.inl (.apply contents))

/-- What a pass read and fetched in front of an apply, the process did. -/
theorem vouched_of_authentic {keypair : MachineKeypair} {s : CaSyncService}
    (hclient : s.client = b.client keypair) {past : List (AgentEvent Computer)}
    {head : List (SyncEvent Computer)} {contents : Text}
    (h : Authentic s pin (head.map (Event.map fun w => w.machine.dir)) contents) :
    Vouched b pin (past ++ synced head) contents := by
  obtain ⟨first, u, now, u', v, v', request, response, raw, bundle, hhead, hget, hraw, hbundle,
    hsignature, hmaterial, hcontents⟩ := h
  rw [hclient] at hraw hbundle hsignature
  obtain ⟨front, last, rfl, rfl, hlast⟩ := List.map_eq_append_iff.mp hhead
  obtain ⟨clock, nothing, rfl, hclock, hnothing⟩ := List.map_eq_cons_iff.mp hlast
  obtain rfl := List.map_eq_nil_iff.mp hnothing
  obtain ⟨fetch, hfetch, heq⟩ := List.mem_map.mp hget
  obtain ⟨before, op, answer, after⟩ := clock
  obtain ⟨before', op', answer', after'⟩ := fetch
  cases hclock
  cases heq
  refine ⟨past ++ synced front, before, answer, after, response, raw, bundle, ?_, ?_, hraw,
    hbundle, hsignature, hmaterial, hcontents⟩
  · rw [synced_append, ← List.append_assoc]
    rfl
  · exact ⟨_, List.mem_append_right past (synced_mem hfetch), rfl⟩

theorem process_vouched (hboot : boot.Happens b.toPlatform) (h : Mirrors b state w trace w' boot)
    (hpin : PinnedBy state.config.forEnrollment pin w.machine.dir) {e : AgentEvent Computer}
    {first rest : List (AgentEvent Computer)} (htrace : trace = first ++ e :: rest)
    {contents : Text} (hop : IsApply contents e.op) : Vouched b pin first contents := by
  obtain ⟨before, op, answer, after⟩ := e
  obtain rfl := hop
  obtain ⟨identity, q, past, head, tail, hq, _, hpass, rfl, happly⟩ := passes_work h hboot
    (e := (⟨before, .apply contents, answer, after⟩ : SyncEvent Computer)) rfl htrace
  rw [← h.config, ← h.before] at hpin
  have hestablished := ((boot_pinned hboot hpin).2.2 q hq).established boot.client identity
  obtain ⟨keypair, hclient⟩ := h.client
  exact vouched_of_authentic (s := syncService boot.config boot.client identity) hclient
    ((pass_authentic _ hpass hestablished).1 _ _ _ _ _ _ happly)

theorem process_pin {x : Process} (hprocess : x.Happens b)
    (hpin : PinnedBy x.state.config.forEnrollment pin x.before.machine.dir) :
    (∀ e ∈ x.trace, e.after.machine.dir .signingKey = e.before.machine.dir .signingKey) ∧
      ∀ first e rest contents, x.trace = first ++ e :: rest → IsApply contents e.op →
        Vouched b pin first contents := by
  obtain ⟨enrollFuel, pollFuel, hexec⟩ := hprocess
  obtain ⟨boot, hboot, hmirrors⟩ := process_boot hexec
  have hstart : PinnedBy boot.config pin boot.before.dir := by
    rwa [hmirrors.config, hmirrors.before]
  obtain ⟨hevents, _, hpasses⟩ := boot_pinned hboot hstart
  refine ⟨fun e he => ?_, fun first e rest contents htrace hop =>
    process_vouched hboot hmirrors hpin htrace hop⟩
  rcases event_cases e with hown | ⟨e', rfl, hop⟩ | ⟨e', rfl, hop⟩
  · rw [own_machine hown (hexec.event_env e he)]
  · exact hevents _ (start_requests hmirrors hop he)
  · obtain ⟨first, rest, htrace⟩ := List.append_of_mem he
    obtain ⟨identity, q, _, head, tail, hq, _, hpass, _, hmem⟩ :=
      passes_work hmirrors hboot hop htrace
    have hestablished := (hpasses q hq).established boot.client identity
    obtain ⟨hbefore, hafter⟩ := (established_pass _ hpass hestablished).2.2
      (e'.map fun w => w.machine.dir) (hmem ▸ by simp)
    exact hafter.trans hbefore.symm

/-- A pin that every process goes by stays what it is over the whole life, and whatever any of them
hands to the helper is vouched for under it. -/
theorem life_pinned {processes : List Process} (h : Lifetime b w processes w')
    (hpin : ∀ x ∈ processes, PinnedBy x.state.config.forEnrollment pin w.machine.dir) :
    (∀ v ∈ computers processes ++ [w'],
      v.machine.dir .signingKey = w.machine.dir .signingKey) ∧
    ∀ x ∈ processes, ∀ first e rest contents, x.trace = first ++ e :: rest →
      IsApply contents e.op → Vouched b pin first contents := by
  induction h with
  | nil w => simp [computers]
  | @cons w w' x processes hbefore hprocess hrest ih =>
    obtain ⟨hx, hprocesses⟩ := List.forall_mem_cons.mp hpin
    have hstart : PinnedBy x.state.config.forEnrollment pin x.before.machine.dir := by
      rw [hbefore]
      exact hx
    obtain ⟨hevents, happlies⟩ := process_pin hprocess hstart
    obtain ⟨_, _, hexec⟩ := hprocess
    have hstarted : x.before.machine.dir .signingKey = w.machine.dir .signingKey := by
      rw [hbefore]
      rfl
    have hafter : x.after.machine.dir .signingKey = w.machine.dir .signingKey :=
      (hexec.frame (fun v => v.machine.dir .signingKey) hevents).trans hstarted
    have hevery := (hexec.invariant
      (I := fun v => v.machine.dir .signingKey = w.machine.dir .signingKey)
      (fun e he hv => (hevents e he).trans hv) hstarted).2
    obtain ⟨hfiles, hlater⟩ := ih fun y hy => (hprocesses y hy).congr hafter
    refine ⟨fun v hv => ?_, List.forall_mem_cons.mpr ⟨happlies, hlater⟩⟩
    simp only [computers, List.flatMap_cons, List.append_assoc, List.mem_append] at hv
    rcases hv with hv | hv
    · rcases List.mem_cons.mp hv with rfl | hv
      · exact hstarted
      · obtain ⟨e, he, rfl⟩ := List.mem_map.mp hv
        exact (hevery e he).2
    · exact (hfiles v (List.mem_append.mpr hv)).trans hafter

end Authentic

/-- The first bundle is applied under the pin that the operator provisioned. -/
theorem life_pinned_sample : ∃ x : Process, Lifetime sampleBuild resting [x] x.after ∧
    (∀ v ∈ computers [x] ++ [x.after],
      v.machine.dir .signingKey = resting.machine.dir .signingKey) ∧
    ∃ first e rest, x.trace = first ++ e :: rest ∧
      IsApply (renderTrustedUserCaKeys golden.bundle) e.op ∧
      Vouched sampleBuild golden.signingKey first (renderTrustedUserCaKeys golden.bundle) := by
  have hserves : ∀ signed, sampleSyncing (beaten (some golden.signingKey))
      (.get ((SyncProgress.sampleService (some golden.signingKey)).bundleRequest signed none))
      goldenAnswer (beaten (some golden.signingKey)) := fun _ => sampleSyncing_serves _ _
  obtain ⟨head, _, happlies⟩ := sample_applies sampleSyncing_works (load_unstored rfl rfl rfl)
    hserves sampleBody_golden golden_accepted
  obtain ⟨front, hprocess⟩ := sample_process (happlies [] none _ (Exec.killed _ _))
  have hlife := Lifetime.cons (w := resting) rfl hprocess (Lifetime.nil _)
  have hpinned := life_pinned hlife (List.forall_mem_singleton.mpr (Or.inl rfl))
  let applied := sampleApply Computer.put Computer.obey (beaten (some golden.signingKey)) golden
  have hsplit : front ++ synced (head ++ [applied]) =
      (front ++ synced head) ++ Event.inl (Event.inl applied) :: [] := by
    rw [synced_append, ← List.append_assoc]
    rfl
  exact ⟨_, hlife, hpinned.1, _, _, _, hsplit, rfl,
    hpinned.2 _ (List.mem_singleton_self _) _ _ _ _ hsplit rfl⟩

end MayflyAgent.LifeInvariants
