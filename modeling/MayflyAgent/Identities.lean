import MayflyAgent.CleanStops
import MayflyAgent.LifeInvariants
import MayflyAgent.RequestSigning

/-!
The identity of a machine. What enrollment returns is what the identity directory holds behind it,
and every later start loads it from there. The record and the private key stay once they are
written, so that the enrollment requests and all signed requests of the life of a machine come from
one keypair, and all signed requests speak for one machine to one server.
-/
namespace MayflyAgent.Identities

open RustText Programs Contracts Budgets Checks Errors Bundles CaSync Heartbeats Daemons Lifecycles
open Enrollment EnrollmentRuns Boots LifeInvariants
open RequestSigning (SentSigned Sends syncHttp daemonHttp meets_fetchBundle meets_tryAcknowledge
  meets_sendHeartbeat)

variable {p : Platform}

variable (p) in
/-- `serde_json` reads back the records it writes, with a line break at their end. -/
def RecordRoundTrips : Prop := ∀ record json, p.recordToJson record = some json →
  p.recordFromJson (json ++ encodeUtf8 ['\n']) = some record

theorem sampleBuild_roundTrips : RoundTrips sampleBuild.toPlatform := samplePlatform_roundTrips

theorem sampleBuild_saves : RecordRoundTrips sampleBuild.toPlatform := by
  intro record json hjson
  by_cases hrecord : record = sampleRecord
  · subst hrecord
    obtain rfl : encodeUtf8 (recordJson sampleRecord) = json := by
      simpa [sampleBuild, savingPlatform] using hjson
    exact if_pos rfl
  · simp [sampleBuild, savingPlatform, hrecord] at hjson

variable (p) in
/-- The record is that of the identity. -/
def Records (m : Machine) (identity : MachineIdentity) : Prop :=
  ∃ bytes, m.identity .record = some bytes ∧ p.recordFromJson bytes = some identity.toRecord

variable (p) in
/-- The identity directory holds the identity, with the private key to its public key. -/
structure Settled (m : Machine) (identity : MachineIdentity) : Prop where
  record : Records p m identity
  key : ∃ keypair, KeyOnDisk p m keypair ∧ p.publicKeyToOpenssh keypair = some identity.publicKey

/-- Neither the private key nor the record is taken away or changed. -/
structure Keeps (m m' : Machine) : Prop where
  key : Kept .privateKey m m'
  record : Kept .record m m'

theorem Keeps.refl (m : Machine) : Keeps m m := ⟨Kept.refl m, Kept.refl m⟩

theorem Keeps.trans {m₁ m₂ m₃ : Machine} (h : Keeps m₁ m₂) (h' : Keeps m₂ m₃) : Keeps m₁ m₃ :=
  ⟨h.key.trans h'.key, h.record.trans h'.record⟩

theorem Keeps.of_same {m m' : Machine} (h : m'.identity = m.identity) : Keeps m m' := by
  constructor <;> exact fun contents hcontents => by rw [h, hcontents]

theorem Keeps.keyOnDisk {m m' : Machine} (h : Keeps m m') {keypair : MachineKeypair}
    (hkey : KeyOnDisk p m keypair) : KeyOnDisk p m' keypair := by
  obtain ⟨bytes, pem, hbytes, hrest⟩ := hkey
  exact ⟨bytes, pem, h.key bytes hbytes, hrest⟩

theorem Keeps.records {m m' : Machine} (h : Keeps m m') {identity : MachineIdentity}
    (hrecords : Records p m identity) : Records p m' identity := by
  obtain ⟨bytes, hbytes, hrecord⟩ := hrecords
  exact ⟨bytes, h.record bytes hbytes, hrecord⟩

theorem Keeps.settled {m m' : Machine} (h : Keeps m m') {identity : MachineIdentity}
    (hsettled : Settled p m identity) : Settled p m' identity := by
  obtain ⟨keypair, hkey, hpublic⟩ := hsettled.key
  exact ⟨h.records hsettled.record, keypair, h.keyOnDisk hkey, hpublic⟩

theorem keyOnDisk_unique {m : Machine} {keypair keypair' : MachineKeypair}
    (h : KeyOnDisk p m keypair) (h' : KeyOnDisk p m keypair') : keypair = keypair' := by
  obtain ⟨bytes, pem, hbytes, hpem, hkey⟩ := h
  obtain ⟨bytes', pem', hbytes', hpem', hkey'⟩ := h'
  obtain rfl := Option.some.inj (hbytes.symm.trans hbytes')
  obtain rfl := Option.some.inj (hpem.symm.trans hpem')
  exact PrivateKey.ed25519.inj (Option.some.inj (hkey.symm.trans hkey'))

theorem records_unique {m : Machine} {identity identity' : MachineIdentity}
    (h : Records p m identity) (h' : Records p m identity') :
    identity.toRecord = identity'.toRecord := by
  obtain ⟨bytes, hbytes, hrecord⟩ := h
  obtain ⟨bytes', hbytes', hrecord'⟩ := h'
  obtain rfl := Option.some.inj (hbytes.symm.trans hbytes')
  exact Option.some.inj (hrecord.symm.trans hrecord')

theorem intoIdentity_eq_ok {record : MachineRecord} {publicKey : Text} {identity : MachineIdentity}
    (h : record.intoIdentity publicKey = .ok identity) :
    identity.toRecord = record ∧ identity.publicKey = publicKey ∧
      identity.enrolledAt = record.enrolledAtUnix * nanosPerSecond := by
  unfold MachineRecord.intoIdentity at h
  obtain ⟨enrolledAt, htime, h⟩ := bind_eq_ok.mp h
  obtain rfl := pure_eq_ok.mp h
  have htime := okOr_eq_ok.mp htime
  unfold fromUnixTimestamp at htime
  split at htime
  · obtain rfl := Option.some.inj htime
    have hseconds :
        unixTimestamp (record.enrolledAtUnix * nanosPerSecond) = record.enrolledAtUnix :=
      Int.mul_ediv_cancel _ (by decide)
    exact ⟨by simp [MachineIdentity.toRecord, hseconds], rfl, rfl⟩
  · cases htime

/-- A loaded identity was enrolled at a whole second. -/
theorem intoIdentity_whole {record : MachineRecord} {publicKey : Text} {identity : MachineIdentity}
    (h : record.intoIdentity publicKey = .ok identity) :
    identity.enrolledAt = unixTimestamp identity.enrolledAt * nanosPerSecond := by
  obtain ⟨hrecord, _, htime⟩ := intoIdentity_eq_ok h
  rw [show unixTimestamp identity.enrolledAt = record.enrolledAtUnix from
    congrArg MachineRecord.enrolledAtUnix hrecord]
  exact htime

/-- Where the private key and the record stay. -/
def keeping : Environment enrollSignature Machine := fun m op answer m' =>
  enrolling m op answer m' ∧ Keeps m m'

section Enrolling

variable {α β : Type}

/-- Contracts of what an action leaves when it succeeds. -/
abbrev Leaving (P : Machine → Prop) (x : EnrollAction α) (Q : α → Machine → Prop) : Prop :=
  Meets keeping (fun _ _ => True) (fun _ => P) x.run (Returns (fun _ _ _ => True) fun a _ => Q a)

/-- A contract of lawful calls is one of what is left. -/
theorem leaving_of_meets {x : EnrollAction α} {P : Machine → Prop} {Q : α → Machine → Prop}
    {F : Error → Condition enrollSignature Machine}
    (h : Meets enrolling (Lawful p) (fun _ => P) x.run (Returns F fun a _ => Q a)) :
    Leaving P x Q := by
  intro past m trace result m' hP hexec
  refine ⟨throughout_iff.mpr fun _ _ _ _ => trivial, ?_⟩
  rintro r rfl
  have hend := (h [] m trace (some r) m' hP (hexec.mono fun _ _ _ _ h => h.1)).2 r rfl
  cases r with
  | ok a => exact hend
  | error e => trivial

/-- What the two files give stays. -/
theorem leaving_kept {P : Machine → Prop} (hP : ∀ m m', Keeps m m' → P m → P m')
    (x : EnrollAction α) : Leaving P x fun _ => P := by
  refine (meets_keeps (Program.calls_true x.run) fun _ m _ _ m' _ hm henv =>
    ⟨trivial, hP m m' henv.2 hm⟩).post fun r past m hm => ?_
  cases r with
  | ok a => exact hm
  | error e => trivial

theorem leaving_check {P : Machine → Prop} {r : Except Error α} {f : α → EnrollAction β}
    {R : β → Machine → Prop} (hf : ∀ a, r = .ok a → Leaving P (f a) R) :
    Leaving P (Action.ofExcept r >>= f) R :=
  meets_ofExcept_bind (fun _ _ _ _ _ => trivial) hf

theorem leaving_result {P : Machine → Prop} {r : Except Error α} {Q : α → Machine → Prop}
    (h : ∀ a m, r = .ok a → P m → Q a m) : Leaving P (Action.ofExcept r) Q := by
  refine (meets_ofExcept fun _ _ _ _ _ => trivial).post fun result past m hm => ?_
  cases result with
  | ok a => exact h a m hm.2 hm.1
  | error e => trivial

theorem keyOnDisk_kept {keypair : MachineKeypair} (m m' : Machine) (h : Keeps m m')
    (hkey : KeyOnDisk p m keypair) : KeyOnDisk p m' keypair := h.keyOnDisk hkey

theorem settled_kept {identity : MachineIdentity} (m m' : Machine) (h : Keeps m m')
    (hsettled : Settled p m identity) : Settled p m' identity := h.settled hsettled

theorem loadMachineIdentity_settles :
    Leaving (fun _ => True) (loadMachineIdentity p) fun identity m => Settled p m identity := by
  refine Meets.andThen (Q := fun keypair _ m => KeyOnDisk p m keypair)
    ((leaving_of_meets (readKeypair_meets (C := fun _ => True))).post ?_) fun keypair => ?_
  · intro r past m h
    cases r with
    | ok keypair => exact h.2
    | error e => trivial
  refine leaving_check fun publicKey hpublic => ?_
  refine Meets.andThen (Q := fun record _ m => KeyOnDisk p m keypair ∧ ∃ bytes,
    m.identity .record = some bytes ∧ p.recordFromJson bytes = some record) ?_ fun record => ?_
  · refine Meets.andThen (leaving_of_meets (readOrFail_meets (p := p)
      (C := fun m => KeyOnDisk p m keypair) .record)) fun bytes => ?_
    exact leaving_result fun record m hrecord h => ⟨h.1, bytes, h.2, okOr_eq_ok.mp hrecord⟩
  · refine leaving_result fun identity m hidentity h => ?_
    obtain ⟨hkey, bytes, hbytes, hrecord⟩ := h
    obtain ⟨hsame, rfl, _⟩ := intoIdentity_eq_ok hidentity
    exact ⟨⟨bytes, hbytes, hsame ▸ hrecord⟩, keypair, hkey, okOr_eq_ok.mp hpublic⟩

theorem saveRecord_leaves (hrecord : RecordRoundTrips p) {keypair : MachineKeypair}
    (identity : MachineIdentity) : Leaving (fun m => KeyOnDisk p m keypair)
      (saveRecord p identity.toRecord) fun _ m => KeyOnDisk p m keypair ∧ Records p m identity := by
  refine leaving_check fun json hjson => ?_
  refine meets_ask fun past m answer m' hkey henv => ⟨trivial, ?_⟩
  rcases henv.1 with ⟨rfl, rfl⟩ | ⟨rfl | rfl, _⟩
  · exact ⟨henv.2.keyOnDisk hkey, _, install_same .., hrecord _ json (okOr_eq_ok.mp hjson)⟩
  · trivial
  · trivial

theorem persistMachineIdentity_settles (hrecord : RecordRoundTrips p)
    (serverUrl hostname : Text) (keypair : MachineKeypair) (response : EnrollmentResponse) :
    Leaving (fun m => KeyOnDisk p m keypair)
      (persistMachineIdentity p serverUrl hostname keypair response)
      fun identity m => Settled p m identity := by
  refine leaving_check fun _ _ => leaving_check fun _ _ => leaving_check fun _ _ => ?_
  refine leaving_check fun publicKey hpublic => ?_
  refine Meets.andThen (leaving_kept keyOnDisk_kept _) fun now => ?_
  refine Meets.andThen (saveRecord_leaves hrecord _) fun _ => ?_
  exact meets_pure fun _ m h => ⟨h.2, keypair, h.1, okOr_eq_ok.mp hpublic⟩

theorem enroll_settles (hcodec : RoundTrips p) (hrecord : RecordRoundTrips p)
    (serverUrl token hostname : Text) : Leaving (fun _ => True) (enroll p serverUrl token hostname)
      fun identity m => Settled p m identity := by
  refine Meets.andThen (leaving_of_meets (isEnrolled_meets (p := p) (C := fun _ => True)))
    fun enrolled => ?_
  cases enrolled with
  | true => exact meets_throw fun _ _ _ => trivial
  | false =>
    refine leaving_check fun _ _ => leaving_check fun _ _ => leaving_check fun _ _ => ?_
    refine Meets.andThen (Q := fun keypair _ m => KeyOnDisk p m keypair)
      (((leaving_of_meets (loadOrGenerateKeypair_meets (p := p))).pre fun _ m hm h =>
        nomatch hm.2.mpr h).post ?_) fun keypair => ?_
    · intro r past m h
      cases r with
      | ok keypair => exact h.2 hcodec
      | error e => trivial
    refine leaving_check fun request _ => ?_
    refine Meets.andThen (leaving_kept keyOnDisk_kept _) fun response => ?_
    exact persistMachineIdentity_settles hrecord serverUrl hostname keypair response

theorem leaving_true (x : EnrollAction α) : Leaving (fun _ => True) x fun _ _ => True :=
  leaving_kept (fun _ _ _ _ => trivial) x

theorem attemptEnrollment_settles (hcodec : RoundTrips p) (hrecord : RecordRoundTrips p)
    (config : Config) (token hostname : Text) : Leaving (fun _ => True)
      (attemptEnrollment p config token hostname) fun identity m => Settled p m identity := by
  refine Meets.andThen (enroll_settles hcodec hrecord config.serverUrl token hostname).attempt
    fun r => ?_
  split
  · exact meets_pure fun _ _ h => h
  · exact loadMachineIdentity_settles.pre fun _ _ _ => trivial
  · exact meets_throw fun _ _ _ => trivial

theorem retryWithBackoff_settles {op : EnrollAction MachineIdentity}
    (hop : Leaving (fun _ => True) op fun identity m => Settled p m identity) (fuel : Nat) :
    ∀ (attempt : UInt32) (lastErr : Option Error), Leaving (fun _ => True)
      (retryWithBackoff op attempt lastErr fuel) fun identity m => Settled p m identity := by
  induction fuel with
  | zero => exact fun _ _ => meets_running
  | succ fuel ih =>
    intro attempt lastErr
    refine Meets.andThen (leaving_true _) fun requested => ?_
    split
    · exact meets_throw fun _ _ _ => trivial
    refine Meets.andThen hop.attempt fun r => ?_
    split
    · exact meets_pure fun _ _ h => h
    refine Meets.andThen ((leaving_true _).pre fun _ _ _ => trivial) fun requested => ?_
    split
    · exact meets_throw fun _ _ _ => trivial
    exact Meets.andThen (leaving_true _) fun _ => ih _ _

theorem ensureEnrolled_settles (hcodec : RoundTrips p) (hrecord : RecordRoundTrips p)
    (config : Config) (hostname : Text) (fuel : Nat) : Leaving (fun _ => True)
      (ensureEnrolled p config hostname fuel) fun identity m => Settled p m identity := by
  refine Meets.andThen (leaving_true _) fun enrolled => ?_
  split
  · exact loadMachineIdentity_settles
  refine Meets.andThen (leaving_true _) fun token => leaving_check fun token _ => ?_
  refine leaving_check fun _ _ => Meets.andThen (leaving_true _) fun client => ?_
  refine leaving_check fun _ _ => Meets.andThen (retryWithBackoff_settles
    (attemptEnrollment_settles hcodec hrecord config token hostname) fuel 0 none) fun identity => ?_
  refine Meets.andThen (leaving_kept settled_kept _) fun answer => ?_
  split
  · exact Meets.andThen (leaving_kept settled_kept _) fun _ => meets_pure fun _ _ h => h
  · exact meets_pure fun _ _ h => h

end Enrolling

section Lives

/-- Records count in whole seconds. -/
def inSeconds (identity : MachineIdentity) : MachineIdentity :=
  { identity with enrolledAt := unixTimestamp identity.enrolledAt * nanosPerSecond }

theorem settled_unique {m : Machine} {identity loaded : MachineIdentity}
    (h : Settled p m identity) (hloaded : Settled p m loaded)
    (hwhole : loaded.enrolledAt = unixTimestamp loaded.enrolledAt * nanosPerSecond) :
    loaded = inSeconds identity := by
  have hrecord := records_unique hloaded.record h.record
  obtain ⟨keypair, hkey, hpublic⟩ := h.key
  obtain ⟨keypair', hkey', hpublic'⟩ := hloaded.key
  obtain rfl := keyOnDisk_unique hkey hkey'
  have hline : loaded.publicKey = identity.publicKey :=
    Option.some.inj (hpublic'.symm.trans hpublic)
  obtain ⟨machineId, hostname, publicKey, enrolledAt, serverUrl, heartbeat, sync⟩ := identity
  obtain ⟨machineId', hostname', publicKey', enrolledAt', serverUrl', heartbeat', sync'⟩ := loaded
  simp only [MachineIdentity.toRecord, MachineRecord.mk.injEq] at hrecord hline hwhole
  obtain ⟨rfl, rfl, rfl, rfl, rfl, hseconds⟩ := hrecord
  simp only [inSeconds, MachineIdentity.mk.injEq, true_and, and_true]
  exact ⟨hline, by rw [← hseconds, ← hwhole]⟩

theorem boot_keeps {x : Boot} (h : x.Happens p) :
    (∀ e ∈ x.trace, Keeps e.before e.after) ∧ Keeps x.before x.after := by
  have hevents : ∀ e ∈ x.trace, Keeps e.before e.after :=
    h.lawful.1.forall_mem fun _ _ he => ⟨he.key, he.record⟩
  obtain ⟨hostname, fuel, hexec⟩ := h.start
  have hstarted := hexec.relates Keeps.refl (fun _ _ _ => Keeps.trans) hevents
  refine ⟨hevents, ?_⟩
  rcases h.passes with ⟨_, hafter⟩ | ⟨_, _, _, _, hafter⟩
  · rwa [hafter]
  · exact hstarted.trans (Keeps.of_same (by rw [hafter]))

theorem boot_settled (hcodec : RoundTrips p) (hrecord : RecordRoundTrips p) {x : Boot}
    (h : x.Happens p) {identity : MachineIdentity} (hok : x.result = some (.ok identity)) :
    Settled p x.after identity := by
  obtain ⟨hostname, fuel, hexec⟩ := h.start
  have hkeeping : Exec keeping _ _ _ _ _ :=
    hexec.of_events fun e he => ⟨hexec.event_env e he, (boot_keeps h).1 e he⟩
  have hstarted : Settled p x.started identity :=
    (ensureEnrolled_settles hcodec hrecord x.config hostname fuel [] _ _ _ _ trivial hkeeping).2
      (.ok identity) hok
  rcases h.passes with ⟨_, hafter⟩ | ⟨_, _, _, _, hafter⟩
  · rwa [hafter]
  · exact (Keeps.of_same (by rw [hafter])).settled hstarted

theorem loadMachineIdentity_whole : YieldsOk
    (fun loaded => loaded.enrolledAt = unixTimestamp loaded.enrolledAt * nanosPerSecond)
    (loadMachineIdentity p) := by
  refine (yieldsOk_trivial _).andThen fun keypair _ => (yieldsOk_trivial _).andThen
    fun publicKey _ => (yieldsOk_trivial _).andThen fun record _ => ?_
  exact fun loaded hloaded => intoIdentity_whole hloaded

/-- A start on a machine with a record loads the identity. -/
theorem boot_loads {x : Boot} (h : x.Happens p) (henrolled : Enrolled x.before)
    {loaded : MachineIdentity} (hok : x.result = some (.ok loaded)) :
    loaded.enrolledAt = unixTimestamp loaded.enrolledAt * nanosPerSecond := by
  obtain ⟨hostname, fuel, hexec⟩ := h.start
  rw [hok] at hexec
  rcases exec_perform_bind hexec with ⟨_, hnone, _⟩ | ⟨answer, m₁, rest, _, henv, hrest⟩
  · cases hnone
  · obtain ⟨hanswer, rfl⟩ := henv
    obtain rfl : answer = true := hanswer.trans (Option.isSome_iff_ne_none.mpr henrolled)
    exact exec_yields hrest loadMachineIdentity_whole loaded rfl

theorem settled_enrolled {m : Machine} {identity : MachineIdentity} (h : Settled p m identity) :
    Enrolled m := by
  obtain ⟨bytes, hbytes, _⟩ := h.record
  exact Option.ne_none_iff_exists'.mpr ⟨bytes, hbytes⟩

theorem life_reloads (hcodec : RoundTrips p) (hrecord : RecordRoundTrips p) {m m' : Machine}
    {boots : List Boot} (h : Life p m boots m') {identity : MachineIdentity}
    (hsettled : Settled p m identity) : ∀ x ∈ boots, ∀ loaded, x.result = some (.ok loaded) →
      loaded = inSeconds identity := by
  induction h with
  | nil m => simp
  | @cons m m' x boots hbefore hboot _ ih =>
    have hstart : Settled p x.before identity :=
      (Keeps.of_same (by rw [hbefore]; rfl)).settled hsettled
    have hafter := (boot_keeps hboot).2.settled hstart
    refine List.forall_mem_cons.mpr ⟨fun loaded hok => ?_, ih hafter⟩
    exact settled_unique hafter (boot_settled hcodec hrecord hboot hok)
      (boot_loads hboot (settled_enrolled hstart) hok)

/-- The identity that a boot goes by is the one that every later boot loads, in whole seconds. -/
theorem life_one_identity (hcodec : RoundTrips p) (hrecord : RecordRoundTrips p) {m m' : Machine}
    {boots : List Boot} (h : Life p m boots m') : boots.Pairwise fun x y =>
      ∀ identity loaded, x.result = some (.ok identity) → y.result = some (.ok loaded) →
        loaded = inSeconds identity := by
  induction h with
  | nil m => exact List.Pairwise.nil
  | cons _ hboot hrest ih =>
    refine List.Pairwise.cons (fun y hy identity loaded hok hloaded => ?_) ih
    exact life_reloads hcodec hrecord hrest (boot_settled hcodec hrecord hboot hok) y hy loaded
      hloaded

end Lives

/-- A start on the enrolled sample machine, which loads the identity. -/
def sampleBoot : Boot where
  config := (sampleState none).config.forEnrollment
  client := sampleBuild.client sampleKeypair
  before := enrolledMachine
  trace := (play (Script.answer ⟨Boots.accepting, fun _ => false⟩)
    (ensureEnrolled sampleBuild.toPlatform (sampleState none).config.forEnrollment sampleHost 1).run
    enrolledMachine).1
  result := some (.ok sampleIdentity)
  started := enrolledMachine
  passes := []
  after := enrolledMachine

theorem sampleBoot_happens : sampleBoot.Happens sampleBuild.toPlatform := by
  refine ⟨⟨sampleHost, 1, ?_⟩, Or.inl ⟨rfl, rfl⟩⟩
  exact exec_played (script_enrolling _) (sample_identity _ _)

theorem life_one_identity_sample :
    Life sampleBuild.toPlatform enrolledMachine [sampleBoot, sampleBoot]
      enrolledMachine ∧
    [sampleBoot, sampleBoot].Pairwise fun x y => ∀ identity loaded,
      x.result = some (.ok identity) → y.result = some (.ok loaded) →
        loaded = inSeconds identity := by
  have hlife :
      Life sampleBuild.toPlatform enrolledMachine [sampleBoot, sampleBoot] enrolledMachine :=
    Life.cons rfl sampleBoot_happens (Life.cons rfl sampleBoot_happens (Life.nil _))
  exact ⟨hlife, life_one_identity sampleBuild_roundTrips sampleBuild_saves hlife⟩

section Processes

variable {b : Build} {w w' : Computer}

def IdentityKept (w w' : Computer) : Prop := Keeps w.machine w'.machine

/-- Every event keeps the private key and the record. -/
theorem process_keeps {x : Process} (h : x.Happens b) :
    ∀ e ∈ x.trace, IdentityKept e.before e.after := by
  obtain ⟨enrollFuel, pollFuel, hexec⟩ := h
  obtain ⟨boot, hboot, hmirrors⟩ := process_boot hexec
  intro e he
  rcases event_cases e with hown | ⟨e', rfl, hop⟩ | ⟨e', rfl, hop⟩
  · exact Keeps.of_same (by rw [own_machine hown (hexec.event_env e he)])
  · obtain ⟨past, hlawful⟩ := hboot.lawful.1.forall_mem
      (C := fun e => ∃ past, Lawful b.toPlatform past e) (fun past e h => ⟨past, h⟩) _
      (start_requests hmirrors hop he)
    exact ⟨hlawful.key, hlawful.record⟩
  · have hmachine : e'.after.machine = { e'.before.machine with dir := e'.after.machine.dir } :=
      (hexec.event_env _ he).2.1
    refine Keeps.of_same ?_
    show e'.after.machine.identity = e'.before.machine.identity
    rw [hmachine]

/-- The enrollment requests of a process present the key on disk. -/
theorem process_presents (hcodec : RoundTrips b.toPlatform) {x : Process} (h : x.Happens b)
    {e : AgentEvent Computer} (he : e ∈ x.trace) {url : Text} {body : Bytes}
    (hop : e.op = .inr (.inl (.postJson url body))) : ∃ keypair,
      KeyOnDisk b.toPlatform e.before.machine keypair ∧ Presents b.toPlatform body keypair := by
  obtain ⟨enrollFuel, pollFuel, hexec⟩ := h
  obtain ⟨boot, hboot, hmirrors⟩ := process_boot hexec
  obtain ⟨before, op, answer, after⟩ := e
  obtain rfl := hop
  obtain ⟨past, hlawful⟩ := hboot.lawful.1.forall_mem
    (C := fun e => ∃ past, Lawful b.toPlatform past e) (fun past e h => ⟨past, h⟩) _
    (start_requests hmirrors
      (e := (⟨before, .postJson url body, answer, after⟩ : EnrollEvent Computer)) rfl he)
  exact (hlawful.request url body rfl).2 hcodec

end Processes

def agentHttp : agentSignature.Op → Option HttpRequest
  | .inl op => daemonHttp op
  | .inr _ => none

section Requests

variable {α : Type} {d : Heartbeats.Daemon} {A : HttpRequest → Prop}

/-- Every request of the call is of this kind. -/
def Requests (A : HttpRequest → Prop) (op : agentSignature.Op) : Prop :=
  ∀ http ∈ agentHttp op, A http

theorem calls_syncing {x : SyncAction α} (h : x.run.Calls fun op => ∀ http ∈ syncHttp op, A http) :
    (syncing x).run.Calls fun op => Requests A (.inl op) := calls_inl h fun _ h => h

theorem sync_answered (op : SyncOp) : Nonempty op.Answer := by
  cases op with
  | read file => exact ⟨.error .other⟩
  | now => exact ⟨(0 : Int)⟩
  | randomBytes => exact ⟨Vector.replicate 16 0⟩
  | _ => exact ⟨.error .io⟩

theorem daemon_answered (op : daemonSignature.Op) : Nonempty (daemonSignature.Answer op) := by
  cases op with
  | inl op => exact sync_answered op
  | inr op => cases op <;> exact ⟨(.error .io : Except Error _)⟩

theorem calls_of_sends {S : Signature} {http : S.Op → Option HttpRequest} {p : Program S α}
    {Q : α → Condition S Unit} (hanswer : ∀ op, Nonempty (S.Answer op))
    (h : Meets (fun _ _ _ _ => True) (Sends A S http) RequestSigning.Always p Q) :
    p.Calls fun op => ∀ request ∈ http op, A request :=
  calls_of_meets (P := fun op => ∀ request ∈ http op, A request) hanswer h

/-- A request that a client of the identity sends, under a signature of the keypair. -/
def SentFor (client : Client) (serverUrl machineId : Text) (http : HttpRequest) : Prop :=
  ∃ method path body, SentSigned client serverUrl machineId method path body http

theorem calls_fetchBundle (s : CaSyncService) (fingerprint : Option Text) :
    (s.fetchBundle fingerprint).run.Calls fun op => ∀ http ∈ syncHttp op,
      SentFor s.client s.serverUrl s.machineId http :=
  (calls_of_sends sync_answered (meets_fetchBundle s _ fingerprint)).mono
    fun _ h http hhttp => ⟨_, _, _, h http hhttp⟩

theorem calls_tryAcknowledge (s : CaSyncService) (report : AckReport) :
    (s.tryAcknowledge report).run.Calls fun op => ∀ http ∈ syncHttp op,
      SentFor s.client s.serverUrl s.machineId http := by
  refine (calls_of_sends sync_answered (meets_tryAcknowledge s _ report)).mono
    fun _ h http hhttp => ?_
  obtain ⟨body, _, hsent⟩ := h http hhttp
  exact ⟨_, _, body, hsent⟩

theorem calls_sendHeartbeat (c : HeartbeatClient) (request : HeartbeatRequest) :
    (c.sendHeartbeat request).run.Calls fun op => ∀ http ∈ daemonHttp op,
      SentFor c.client c.serverUrl c.machineId http :=
  (calls_of_sends daemon_answered (meets_sendHeartbeat c _ request)).mono
    fun _ h http hhttp => ⟨_, _, _, h http hhttp⟩

theorem calls_synchronize (s : CaSyncService)
    (hfetch : ∀ fingerprint,
      (s.fetchBundle fingerprint).run.Calls fun op => ∀ http ∈ syncHttp op, A http)
    (hacknowledge : ∀ report,
      (s.tryAcknowledge report).run.Calls fun op => ∀ http ∈ syncHttp op, A http) :
    s.synchronize.run.Calls fun op => ∀ http ∈ syncHttp op, A http := by
  have hread : ∀ {β : Type} (file : StateFiles.StateFile)
      (f : Except StateFiles.ReadError Bytes → SyncAction β),
      (∀ answer, (f answer).run.Calls fun op => ∀ http ∈ syncHttp op, A http) →
      (readFile file >>= f).run.Calls fun op => ∀ http ∈ syncHttp op, A http :=
    fun file f hf => calls_bind (calls_perform fun _ h => by cases h) hf
  have hwrite : ∀ (file : StateFiles.StateFile) (contents : Bytes) (mode : UInt32),
      (secureWrite file contents mode).run.Calls fun op => ∀ http ∈ syncHttp op, A http :=
    fun _ _ _ => calls_bind (calls_perform fun _ h => by cases h) fun _ => trivial
  have hstamp : ∀ file, (s.writeTimestamp file).run.Calls fun op => ∀ http ∈ syncHttp op, A http :=
    fun file => calls_bind (calls_perform fun _ h => by cases h) fun _ =>
      calls_bind trivial fun _ => hwrite _ _ _
  have hpin : ∀ bundle, (s.persistPinIfNeeded bundle).run.Calls
      fun op => ∀ http ∈ syncHttp op, A http := by
    intro bundle
    unfold CaSyncService.persistPinIfNeeded
    split
    · trivial
    refine calls_bind (hread _ _ fun _ => trivial) fun existing => ?_
    split
    · trivial
    · exact hwrite _ _ _
  have hack : ∀ report, (s.acknowledge report).run.Calls fun op => ∀ http ∈ syncHttp op, A http :=
    fun report => calls_bind (calls_attempt (hacknowledge report)) fun _ => trivial
  unfold CaSyncService.synchronize
  refine calls_bind (calls_bind (hread _ _ fun _ => trivial) fun _ => calls_bind
    (hread _ _ fun _ => trivial) fun _ => calls_bind (hread _ _ fun _ => trivial) fun _ => trivial)
    fun persisted => ?_
  refine calls_bind (hfetch _) fun response => calls_bind (hstamp _) fun _ => ?_
  split
  · exact calls_bind (hstamp _) fun _ => trivial
  split
  · trivial
  refine calls_bind trivial fun raw => ?_
  refine calls_bind (calls_perform fun _ h => by cases h) fun now => ?_
  refine calls_bind trivial fun bundle => ?_
  split
  · trivial
  split
  · exact calls_bind (hpin _) fun _ => calls_bind (hstamp _) fun _ => trivial
  refine calls_bind (calls_bind trivial fun _ => calls_bind
    (calls_perform fun _ h => by cases h) fun _ => trivial) fun outcome => ?_
  cases outcome with
  | applied =>
    exact calls_bind (calls_bind (hwrite _ _ _) fun _ => calls_bind (hwrite _ _ _) fun _ =>
      calls_bind (hpin _) fun _ => hstamp _) fun _ => calls_bind (hack _) fun _ => trivial
  | rolledBack => exact calls_bind (hack _) fun _ => trivial

theorem requests_of_idle (op : agentSignature.Op) (h : CleanStops.IsIdle op) : Requests A op := by
  intro http hhttp
  rcases op with (op | op) | op
  · cases op with
    | get request => cases h
    | post request => cases h
    | _ => cases hhttp
  · cases op with
    | heartbeatPost request => exact h.elim
    | _ => cases hhttp
  · cases hhttp

theorem calls_saveStatus (status : RuntimeStatus) :
    (saveStatus status).run.Calls fun op => Requests A (.inl op) :=
  calls_bind (calls_perform fun _ h => by cases h) fun _ => trivial

theorem calls_act (hbeat : ∀ request, (d.heartbeat.sendHeartbeat request).run.Calls
      fun op => ∀ http ∈ daemonHttp op, A http)
    (hsync : d.sync.synchronize.run.Calls fun op => ∀ http ∈ syncHttp op, A http)
    (status : RuntimeStatus) (action : PollAction) :
    (d.act status action).run.Calls fun op => Requests A (.inl op) := by
  have hnow : (syncing clockNow).run.Calls fun op => Requests A (.inl op) :=
    calls_syncing (calls_perform fun _ h => by cases h)
  have hpersist : ∀ status, (Daemon.persistStatus status).run.Calls
      fun op => Requests A (.inl op) :=
    fun status => calls_bind (calls_attempt (calls_saveStatus status)) fun _ => trivial
  cases action with
  | heartbeat =>
    exact calls_bind hnow fun _ => calls_bind (calls_attempt (hbeat _)) fun _ =>
      calls_bind (hpersist _) fun _ => trivial
  | bundleSync =>
    exact calls_bind (calls_attempt (calls_syncing hsync)) fun _ => calls_bind hnow fun _ =>
      calls_bind (hpersist _) fun _ => trivial

theorem calls_daemonAction {x : DaemonAction α} (h : x.run.Calls fun op => Requests A (.inl op)) :
    (daemonAction x).run.Calls (Requests A) :=
  (calls_inl h fun _ h => h).bind fun _ => trivial

theorem calls_polling (hact : ∀ status action,
      (d.act status action).run.Calls fun op => Requests A (.inl op))
    (status : RuntimeStatus) (op : Scheduling.LoopOp) :
    (polling d status op).Calls (Requests A) := by
  cases op with
  | act action =>
    refine (calls_inl (hact status action) fun _ h => h).bind fun result => ?_
    cases result <;> trivial
  | now => exact ⟨fun _ h => (by cases h), fun _ => trivial⟩
  | nextDelay action interval => exact ⟨fun _ h => (by cases h), fun _ => trivial⟩
  | isRequested => exact ⟨fun _ h => (by cases h), fun _ => trivial⟩
  | threadSleep chunk => exact ⟨fun _ h => (by cases h), fun _ => trivial⟩
  | _ => trivial

theorem calls_serve (hact : ∀ status action,
      (d.act status action).run.Calls fun op => Requests A (.inl op))
    (generation : UInt64) (scheduler : Scheduling.Scheduler) (fuel : Nat) :
    (serve d generation scheduler fuel).run.Calls (Requests A) := by
  refine calls_bind (calls_daemonAction (calls_saveStatus _)) fun _ => ?_
  refine calls_bind (calls_daemonAction (hact _ .heartbeat)) fun status => ?_
  refine calls_bind (calls_daemonAction (hact _ .bundleSync)) fun status => ?_
  refine calls_bind ?_ fun r => calls_daemonAction (calls_saveStatus _)
  refine (calls_handle (I := fun _ => True) (P := fun _ => True) (fun status op _ _ =>
    ⟨calls_polling hact status op, yields_of_all (fun _ => trivial) _⟩)
    (Program.calls_true _) trivial).1.bind fun r => ?_
  obtain ⟨r, next⟩ := r
  cases r <;> trivial

end Requests

section Speaking

variable {b : Build} {α β : Type}

/-- The request speaks for the identity that the disk holds, under the key that it holds. -/
def Spoken (b : Build) (m : Machine) (http : HttpRequest) : Prop :=
  ∃ identity keypair, Records b.toPlatform m identity ∧ KeyOnDisk b.toPlatform m keypair ∧
    SentFor (b.client keypair) identity.serverUrl identity.machineId http

/-- Where the private key and the record stay. -/
def settling : Environment agentSignature Computer := fun w op answer w' =>
  living w op answer w' ∧ IdentityKept w w'

abbrev Speaking (b : Build) (P : Machine → Prop) (x : AgentAction α) (Q : α → Machine → Prop) :
    Prop :=
  Meets settling (fun _ e => Requests (Spoken b e.before.machine) e.op) (fun _ w => P w.machine)
    x.run (Returns (fun _ _ _ => True) fun a _ w => Q a w.machine)

/-- Requests of one kind, where each of the kind speaks for what the disk holds. -/
theorem speaking_of_calls {P : Machine → Prop} {A : HttpRequest → Prop} {x : AgentAction α}
    (hP : ∀ m m', Keeps m m' → P m → P m') (hA : ∀ m http, P m → A http → Spoken b m http)
    (hx : x.run.Calls (Requests A)) : Speaking b P x fun _ => P := by
  refine (meets_keeps hx fun _ w op answer w' hop hw henv =>
    ⟨fun http hhttp => hA _ http hw (hop http hhttp), hP _ _ henv.2 hw⟩).post fun r past w hw => ?_
  cases r with
  | ok a => exact hw
  | error e => trivial

theorem speaking_of_idle {P : Machine → Prop} {x : AgentAction α}
    (hP : ∀ m m', Keeps m m' → P m → P m') (hx : x.run.Calls CleanStops.IsIdle) :
    Speaking b P x fun _ => P :=
  speaking_of_calls (A := fun _ => False) hP (fun _ _ _ h => h.elim) (hx.mono requests_of_idle)

/-- What an action of the enrollment leaves, it leaves among the calls of the process. -/
theorem enrollAction_speaks {P : Machine → Prop} {Q : α → Machine → Prop} {x : EnrollAction α}
    (h : Leaving P x Q) : Speaking b P (enrollAction x) Q := by
  intro past w trace result w' hw hexec
  obtain ⟨inner, r, rfl, hinner, hok⟩ := exec_enrollAction (hexec.mono fun _ _ _ _ h => h.1)
  constructor
  · refine throughout_iff.mpr fun first e rest htrace http hhttp => ?_
    have hmem : e ∈ enrolled inner := htrace ▸ List.mem_append_right _ (List.mem_cons_self ..)
    obtain ⟨middle, hmiddle, rfl⟩ := List.mem_map.mp hmem
    cases hhttp
  · refine (fun hkeeping : Exec keeping _ _ _ _ _ => ?_) (hinner.of_events fun e he => ?_)
    · rintro r rfl
      cases r with
      | ok a => exact (h [] _ _ _ _ hw hkeeping).2 _ (hok a rfl)
      | error e => trivial
    · obtain ⟨e', he', rfl⟩ := List.mem_map.mp he
      have hmem : Event.inr (Event.inl e') ∈ enrolled inner :=
        List.mem_map_of_mem (List.mem_map_of_mem he')
      exact ⟨hinner.event_env _ he, (hexec.event_env _ hmem).2⟩

theorem readKeypair_speaks (P : Machine → Prop) :
    Speaking b P (enrollAction (readKeypair b.toPlatform))
      fun keypair m => P m ∧ KeyOnDisk b.toPlatform m keypair := by
  refine enrollAction_speaks ?_
  exact leaving_of_meets (readKeypair_meets (C := P))

/-- The daemon is built for the identity on the disk, with the key on the disk. -/
structure BuiltFrom (b : Build) (d : Heartbeats.Daemon) (m : Machine) : Prop where
  heartbeat : ∃ identity keypair, Records b.toPlatform m identity ∧
    KeyOnDisk b.toPlatform m keypair ∧ d.heartbeat.client = b.client keypair ∧
    d.heartbeat.serverUrl = identity.serverUrl ∧ d.heartbeat.machineId = identity.machineId
  sync : ∃ identity keypair, Records b.toPlatform m identity ∧
    KeyOnDisk b.toPlatform m keypair ∧ d.sync.client = b.client keypair ∧
    d.sync.serverUrl = identity.serverUrl ∧ d.sync.machineId = identity.machineId

theorem Keeps.builtFrom {m m' : Machine} {d : Heartbeats.Daemon} (h : Keeps m m')
    (hbuilt : BuiltFrom b d m) : BuiltFrom b d m' := by
  obtain ⟨⟨i, k, hi, hk, hrest⟩, ⟨i', k', hi', hk', hrest'⟩⟩ := hbuilt
  exact ⟨⟨i, k, h.records hi, h.keyOnDisk hk, hrest⟩,
    ⟨i', k', h.records hi', h.keyOnDisk hk', hrest'⟩⟩

/-- A request of one of the two clients of the daemon. -/
def OfDaemon (d : Heartbeats.Daemon) (http : HttpRequest) : Prop :=
  SentFor d.heartbeat.client d.heartbeat.serverUrl d.heartbeat.machineId http ∨
    SentFor d.sync.client d.sync.serverUrl d.sync.machineId http

theorem spoken_of_daemon {d : Heartbeats.Daemon} {m : Machine} {http : HttpRequest}
    (hbuilt : BuiltFrom b d m) (h : OfDaemon d http) : Spoken b m http := by
  rcases h with hsent | hsent
  · obtain ⟨identity, keypair, hi, hk, hclient, hserver, hmachine⟩ := hbuilt.heartbeat
    exact ⟨identity, keypair, hi, hk, hclient ▸ hserver ▸ hmachine ▸ hsent⟩
  · obtain ⟨identity, keypair, hi, hk, hclient, hserver, hmachine⟩ := hbuilt.sync
    exact ⟨identity, keypair, hi, hk, hclient ▸ hserver ▸ hmachine ▸ hsent⟩

theorem calls_ofDaemon (d : Heartbeats.Daemon) (generation : UInt64)
    (scheduler : Scheduling.Scheduler) (fuel : Nat) :
    (serve d generation scheduler fuel).run.Calls (Requests (OfDaemon d)) := by
  refine calls_serve (calls_act (fun request => ?_) (calls_synchronize d.sync ?_ ?_)) _ _ _
  · exact (calls_sendHeartbeat d.heartbeat request).mono fun _ h http hhttp => Or.inl (h http hhttp)
  · exact fun fingerprint => (calls_fetchBundle d.sync fingerprint).mono
      fun _ h http hhttp => Or.inr (h http hhttp)
  · exact fun report => (calls_tryAcknowledge d.sync report).mono
      fun _ h http hhttp => Or.inr (h http hhttp)

theorem recover_speaks (state : AppState) (host : HostFacts) (identity : MachineIdentity) :
    Speaking b (Settled b.toPlatform · identity) (recover b state host identity)
      fun r m => BuiltFrom b r.1 m := by
  have hidle : ∀ {α : Type} {P : Machine → Prop} {x : AgentAction α},
      (∀ m m', Keeps m m' → P m → P m') → x.run.Calls IsReading → Speaking b P x fun _ => P :=
    fun hP hx => speaking_of_idle hP (hx.mono CleanStops.idle_of_reading)
  refine Meets.andThen (readKeypair_speaks (Settled b.toPlatform · identity))
    fun heartbeatKeypair => ?_
  refine Meets.andThen (readKeypair_speaks fun m => Settled b.toPlatform m identity ∧
    KeyOnDisk b.toPlatform m heartbeatKeypair) fun syncKeypair => ?_
  have hkept : ∀ m m', Keeps m m' →
      (Settled b.toPlatform m identity ∧ KeyOnDisk b.toPlatform m heartbeatKeypair) ∧
        KeyOnDisk b.toPlatform m syncKeypair →
      (Settled b.toPlatform m' identity ∧ KeyOnDisk b.toPlatform m' heartbeatKeypair) ∧
        KeyOnDisk b.toPlatform m' syncKeypair :=
    fun _ _ h hm => ⟨⟨h.settled hm.1.1, h.keyOnDisk hm.1.2⟩, h.keyOnDisk hm.2⟩
  refine Meets.andThen (speaking_of_idle hkept ?_) fun generation => ?_
  · have hread : readRuntimeGeneration.run.Calls fun op => CleanStops.IsIdle (.inl (.inl op)) :=
      calls_bind (calls_perform rfl) fun _ => trivial
    exact (calls_inl (calls_inl hread fun _ h => h) fun _ h => h).bind fun _ => trivial
  refine Meets.andThen (hidle hkept ⟨trivial, fun _ => trivial⟩) fun _ => ?_
  refine Meets.andThen (hidle hkept (calls_askChecked _ _)) fun _ => ?_
  refine Meets.andThen (hidle hkept (calls_askChecked _ _)) fun _ => ?_
  refine Meets.andThen (hidle hkept ⟨rfl, fun _ => trivial⟩) fun now => ?_
  refine Meets.andThen (hidle hkept (calls_schedule now _ _ _)) fun _ => meets_pure fun _ w h => ?_
  exact ⟨⟨identity, heartbeatKeypair, h.1.1.record, h.1.2, rfl, rfl, rfl⟩,
    ⟨identity, syncKeypair, h.1.1.record, h.2, rfl, rfl, rfl⟩⟩

theorem run_speaks (hcodec : RoundTrips b.toPlatform) (hrecord : RecordRoundTrips b.toPlatform)
    (state : AppState) (enrollFuel pollFuel : Nat) : Speaking b (fun _ => True)
      (run b state enrollFuel pollFuel) fun _ _ => True := by
  have hstart : Speaking b (fun _ => True) (enrolledStart b state enrollFuel)
      fun started m => Settled b.toPlatform m started.2 := by
    have hidle : ∀ {α : Type} {x : AgentAction α}, x.run.Calls CleanStops.IsIdle →
        Speaking b (fun _ => True) x fun _ _ => True :=
      fun hx => speaking_of_idle (fun _ _ _ _ => trivial) hx
    refine Meets.andThen (hidle (calls_bind (CleanStops.idle_askChecked _ _) fun _ => calls_bind
      (CleanStops.idle_askChecked _ _) fun _ => CleanStops.idle_askChecked _ _)) fun _ => ?_
    refine Meets.andThen (hidle (calls_bind (CleanStops.idle_askChecked _ _) fun _ =>
      CleanStops.idle_askChecked _ _)) fun _ => ?_
    refine Meets.andThen (hidle (calls_perform trivial)) fun host => ?_
    refine Meets.andThen (enrollAction_speaks (ensureEnrolled_settles hcodec hrecord _ _ _))
      fun identity => ?_
    exact meets_pure fun _ _ h => h
  refine Meets.andThen hstart fun started => ?_
  obtain ⟨host, identity⟩ := started
  refine Meets.andThen (speaking_of_idle settled_kept ⟨trivial, fun _ => trivial⟩)
    fun (seen : Bool) => ?_
  cases seen with
  | true => exact meets_pure fun _ _ _ => trivial
  | false =>
    refine Meets.andThen (recover_speaks state host identity) fun recovered => ?_
    obtain ⟨d, generation, scheduler⟩ := recovered
    refine (speaking_of_calls (fun _ _ h hm => h.builtFrom hm) (fun _ _ => spoken_of_daemon)
      (calls_ofDaemon d generation scheduler pollFuel)).post fun r past w _ => ?_
    cases r <;> trivial

theorem process_speaks (hcodec : RoundTrips b.toPlatform) (hrecord : RecordRoundTrips b.toPlatform)
    {x : Process} (h : x.Happens b) : ∀ e ∈ x.trace, ∀ http ∈ agentHttp e.op,
      Spoken b e.before.machine http := by
  obtain ⟨enrollFuel, pollFuel, hexec⟩ := id h
  have hsettling : Exec settling _ _ _ _ _ :=
    hexec.of_events fun e he => ⟨hexec.event_env e he, process_keeps h e he⟩
  exact (run_speaks hcodec hrecord x.state enrollFuel pollFuel [] _ _ _ _ trivial
    hsettling).1.forall_mem fun _ _ h => h

/-- What was before an event of a life is kept to its end. -/
theorem life_keeps {w w' : Computer} {processes : List Process} (h : Lifetime b w processes w')
    {x : Process} (hx : x ∈ processes) {e : AgentEvent Computer} (he : e ∈ x.trace) :
    IdentityKept e.before w' := by
  have hordered := (lifetime_ordered (R := IdentityKept) (fun _ => Keeps.refl _)
    (fun _ _ _ => Keeps.trans) (fun _ => Keeps.of_same rfl) (fun _ _ hx => process_keeps hx) h).1
  have hcomputer : e.after ∈ computers processes :=
    List.mem_flatMap.mpr ⟨x, hx, List.mem_cons_of_mem _ (List.mem_map_of_mem he)⟩
  have hafter := (List.pairwise_append.mp hordered).2.2 _ hcomputer w' (List.mem_singleton_self w')
  exact (process_keeps (lifetime_happens h x hx) e he).trans hafter

/-- Over the whole life of a machine all enrollment requests present one key, and all signed
requests go to one server, speak for one machine and are signed with that key. The identity
directory holds no other at the end. -/
theorem life_one_voice (hcodec : RoundTrips b.toPlatform) (hrecord : RecordRoundTrips b.toPlatform)
    {w w' : Computer} {processes : List Process} (h : Lifetime b w processes w') :
    ∃ machineId serverUrl keypair,
      (∀ keypair', KeyOnDisk b.toPlatform w'.machine keypair' → keypair' = keypair) ∧
      (∀ identity, Records b.toPlatform w'.machine identity →
        identity.machineId = machineId ∧ identity.serverUrl = serverUrl) ∧
      ∀ x ∈ processes, ∀ e ∈ x.trace,
        (∀ url body, e.op = .inr (.inl (.postJson url body)) → Presents b.toPlatform body keypair) ∧
        ∀ http ∈ agentHttp e.op, SentFor (b.client keypair) serverUrl machineId http := by
  have hkey : ∃ keypair, ∀ keypair', KeyOnDisk b.toPlatform w'.machine keypair' →
      keypair' = keypair := by
    by_cases hfound : ∃ keypair, KeyOnDisk b.toPlatform w'.machine keypair
    · obtain ⟨keypair, hkeypair⟩ := hfound
      exact ⟨keypair, fun _ h => keyOnDisk_unique h hkeypair⟩
    · exact ⟨unreadKeypair, fun keypair' h => absurd ⟨keypair', h⟩ hfound⟩
  have hnames : ∃ machineId serverUrl, ∀ identity, Records b.toPlatform w'.machine identity →
      identity.machineId = machineId ∧ identity.serverUrl = serverUrl := by
    by_cases hfound : ∃ identity, Records b.toPlatform w'.machine identity
    · obtain ⟨identity, hidentity⟩ := hfound
      refine ⟨identity.machineId, identity.serverUrl, fun identity' h => ?_⟩
      have hsame := records_unique h hidentity
      exact ⟨congrArg MachineRecord.machineId hsame, congrArg MachineRecord.serverUrl hsame⟩
    · exact ⟨[], [], fun identity h => absurd ⟨identity, h⟩ hfound⟩
  obtain ⟨keypair, hkey⟩ := hkey
  obtain ⟨machineId, serverUrl, hnames⟩ := hnames
  refine ⟨machineId, serverUrl, keypair, hkey, hnames, fun x hx e he => ?_⟩
  have hkept := life_keeps h hx he
  have hprocess := lifetime_happens h x hx
  constructor
  · intro url body hop
    obtain ⟨keypair', hdisk, hpresents⟩ := process_presents hcodec hprocess he hop
    rwa [← hkey keypair' (hkept.keyOnDisk hdisk)]
  · intro http hhttp
    obtain ⟨identity, keypair', hidentity, hdisk, hsent⟩ :=
      process_speaks hcodec hrecord hprocess e he http hhttp
    obtain ⟨rfl, rfl⟩ := hnames identity (hkept.records hidentity)
    rwa [← hkey keypair' (hkept.keyOnDisk hdisk)]

theorem life_one_voice_sample : ∃ x : Process, Lifetime sampleBuild resting [x] x.after ∧
    ∃ machineId serverUrl keypair, ∃ e ∈ x.trace, ∃ http ∈ agentHttp e.op,
      SentFor (sampleBuild.client keypair) serverUrl machineId http := by
  obtain ⟨x, hlife, _, e, he, request, hop⟩ := golden_life
  obtain ⟨machineId, serverUrl, keypair, _, _, hvoice⟩ :=
    life_one_voice (b := sampleBuild) sampleBuild_roundTrips sampleBuild_saves hlife
  have hhttp : request ∈ agentHttp e.op := by
    rw [hop]
    rfl
  exact ⟨x, hlife, machineId, serverUrl, keypair, e, he, request, hhttp,
    (hvoice x (List.mem_singleton_self x) e he).2 request hhttp⟩

end Speaking

end MayflyAgent.Identities
