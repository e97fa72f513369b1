import MayflyAgent.Boots
import MayflyAgent.Timetables

/-!
What `load_machine_identity` lets through. Before enrollment saves a record it checks every field
of it. Loading parses the record and looks at its timestamp only, so a loaded identity is as good
as the record on disk: one that enrollment saved keeps the rules, and then the scheduler built from
it waits after every poll and never computes a date that is too late.
-/
namespace MayflyAgent.LoadedIdentities

open RustText Programs Contracts Checks Errors Bundles BundleValidation Enrollment EnrollmentRuns
open Scheduling (ofSecs JitteredInterval Scheduler LoopAction loopSignature addDuration maxTime
  dueFrom)
open Timetables (dueFrom_meets)

variable {T W : Type}

/-- The rules for the fields of an identity and of its record. -/
structure FitsRules (machineId hostname serverUrl : Text) (heartbeat sync : UInt64) : Prop where
  machineId_length : 1 ≤ machineId.length ∧ machineId.length ≤ 128
  machineId_chars : ∀ c ∈ machineId, isMachineIdChar c = true
  hostname_valid : validateHostname hostname = .ok ()
  serverUrl_valid : validateServerUrl serverUrl = .ok ()
  heartbeat_range : 1 ≤ heartbeat.toNat ∧ heartbeat.toNat ≤ 86400
  sync_range : 1 ≤ sync.toNat ∧ sync.toNat ≤ 86400

def IdentityFits (identity : MachineIdentity) : Prop :=
  FitsRules identity.machineId identity.hostname identity.serverUrl identity.heartbeatInterval
    identity.syncInterval

def RecordFits (record : MachineRecord) : Prop :=
  FitsRules record.machineId record.hostname record.serverUrl record.heartbeatIntervalSecs
    record.syncIntervalSecs

/-- The first moment of the year 9999. -/
def year9999 : Time := 253370764800 * nanosPerSecond

/-- Every delay is one that its interval can draw. -/
def drawing : Environment (loopSignature T) W := fun _ op answer _ =>
  match op, answer with
  | .nextDelay _ interval, delay => interval.Allows delay
  | _, _ => True

/-- The cadence of an interval of a record. -/
def cadence (secs : UInt64) (ratio : Option ℚ) : JitteredInterval := .new (ofSecs secs.toNat) ratio

/-- Before the year 9999 no date overflows, and every action is due later than now once those due
were taken. The due times before that may be any. -/
structure Schedules (T W : Type) (heartbeat sync : JitteredInterval) : Prop where
  starts : ∀ now < year9999, Meets (drawing : Environment (loopSignature T) W) (fun _ _ => True)
    (fun _ _ => True) (Scheduler.new now heartbeat sync).run
    (Returns (fun _ _ _ => False) fun s _ _ =>
      now < s.nextDue ∧ s.heartbeat = heartbeat ∧ s.sync = sync)
  goesOn : ∀ now < year9999, ∀ s : Scheduler, s.heartbeat = heartbeat → s.sync = sync →
    Meets (drawing : Environment (loopSignature T) W) (fun _ _ => True) (fun _ _ => True)
      (s.takeDue now).run (Returns (fun _ _ _ => False) fun taken _ _ =>
        now < taken.2.nextDue ∧ taken.2.heartbeat = heartbeat ∧ taken.2.sync = sync)

/-- An interval of at least a nanosecond and at most a day. -/
def Moderate (interval : JitteredInterval) : Prop :=
  0 < interval.base ∧ interval.base ≤ ofSecs 86400

theorem cadence_moderate {secs : UInt64} (h : 1 ≤ secs.toNat ∧ secs.toNat ≤ 86400)
    (ratio : Option ℚ) : Moderate (cadence secs ratio) := by
  obtain ⟨hpos, hle⟩ := h
  show 0 < secs.toNat * 1000000000 ∧ secs.toNat * 1000000000 ≤ 86400 * 1000000000
  omega

/-- The jitter at most doubles a delay. -/
theorem allows_le {interval : JitteredInterval} {delay : Nat} (h : interval.Allows delay) :
    delay ≤ 2 * interval.base := by
  have hratio : interval.largest ≤ 2 * interval.base := by
    have hbase : (0 : ℚ) ≤ interval.base := Nat.cast_nonneg _
    have hle := mul_le_mul_of_nonneg_left interval.le_one hbase
    rw [JitteredInterval.largest, mul_add, mul_one]
    rw [mul_one] at hle
    linarith
  have hcast : (delay : ℚ) < ((2 * interval.base + 1 : Nat) : ℚ) := by
    have hdelay := h.2
    push_cast
    linarith
  exact Nat.lt_succ_iff.mp (Nat.cast_lt.mp hcast)

theorem delay_fits {interval : JitteredInterval} (h : Moderate interval) {now : Time}
    (hnow : now < year9999) {delay : Nat} (hdelay : interval.Allows delay) :
    now + delay ≤ maxTime ∧ now < now + delay := by
  obtain ⟨hpos, hday⟩ := h
  have hlow : interval.base ≤ delay := hdelay.1
  have hhigh : delay ≤ 2 * interval.base := allows_le hdelay
  have hsum : ∀ t : ℤ, t < 253370764800000000000 →
      t + delay ≤ 253402300799999999999 ∧ t < t + delay := by
    unfold ofSecs at hday
    omega
  exact hsum now hnow

theorem dueFrom_later {interval : JitteredInterval} (h : Moderate interval) {now : Time}
    (hnow : now < year9999) (action : Heartbeats.PollAction) :
    Meets (drawing : Environment (loopSignature T) W) (fun _ _ => True) (fun _ _ => True)
      (dueFrom now action interval).run
      (Returns (fun _ _ _ => False) fun due _ _ => now < due) := by
  refine meets_ask fun past w (delay : Nat) w' _ hallows => ⟨trivial, ?_⟩
  obtain ⟨hfits, hlater⟩ := delay_fits h hnow hallows
  rw [addDuration, if_pos hfits]
  exact hlater

theorem nextDue_later {s : Scheduler} {now : Time} (hheartbeat : now < s.heartbeatDue)
    (hsync : now < s.syncDue) : now < s.nextDue := lt_min hheartbeat hsync

/-- What one cadence of `take_due` leaves: its due time is later than now, and the rest is kept. -/
theorem take_later {s : Scheduler} {now : Time} (hnow : now < year9999)
    (action : Heartbeats.PollAction) (h : Moderate (s.interval action)) :
    Meets (drawing : Environment (loopSignature T) W) (fun _ _ => True) (fun _ _ => True)
      (s.take now action).run (Returns (fun _ _ _ => False) fun taken _ _ =>
        ∃ due, now < due ∧ taken.2 = s.setDue action due) := by
  unfold Scheduler.take
  split
  · refine Meets.andThen (dueFrom_later h hnow action) fun due => ?_
    exact meets_pure fun _ _ hdue => ⟨due, hdue, rfl⟩
  · rename_i hskip
    refine meets_pure fun _ _ _ => ⟨s.dueOf action, not_le.mp hskip, ?_⟩
    cases action <;> rfl

theorem schedules_of_moderate {heartbeat sync : JitteredInterval} (hheartbeat : Moderate heartbeat)
    (hsync : Moderate sync) : Schedules T W heartbeat sync where
  starts := by
    intro now hnow
    refine Meets.andThen (dueFrom_later hheartbeat hnow _) fun heartbeatDue => ?_
    refine meets_of_fact (fun _ _ h => h) fun hfirst => ?_
    refine Meets.andThen ((dueFrom_later hsync hnow _).pre fun _ _ _ => trivial) fun syncDue => ?_
    exact meets_pure fun _ _ hsecond => ⟨nextDue_later hfirst hsecond, rfl, rfl⟩
  goesOn := by
    rintro now hnow s rfl rfl
    refine Meets.andThen (take_later hnow .heartbeat hheartbeat) fun ⟨heartbeats, first⟩ => ?_
    refine meets_of_fact (fun _ _ h => h) ?_
    rintro ⟨heartbeatDue, hfirst, rfl⟩
    have htaken := take_later (T := T) (W := W) (s := s.setDue .heartbeat heartbeatDue) hnow
      .bundleSync hsync
    refine Meets.andThen (htaken.pre fun _ _ _ => trivial)
      fun ⟨syncs, second⟩ => ?_
    refine meets_of_fact (fun _ _ h => h) ?_
    rintro ⟨syncDue, hsecond, rfl⟩
    exact meets_pure fun _ _ _ => ⟨nextDue_later hfirst hsecond, rfl, rfl⟩

theorem schedules_of_fits {identity : MachineIdentity} (h : IdentityFits identity)
    (ratio : Option ℚ) : Schedules T W (cadence identity.heartbeatInterval ratio)
      (cadence identity.syncInterval ratio) :=
  schedules_of_moderate (cadence_moderate h.heartbeat_range ratio)
    (cadence_moderate h.sync_range ratio)

/-- The record holds these bytes, when it can be read at all. Every other answer may be any. -/
def holding (bytes : Bytes) : Environment enrollSignature W := fun _ op answer _ =>
  match op, answer with
  | .read .record, answer => ∀ contents, answer = .ok contents → contents = bytes
  | _, _ => True

theorem meets_anyhow {α : Type} {env : Environment enrollSignature W} {x : EnrollAction α} :
    Meets env (fun _ _ => True) (fun _ _ => True) x.run
      (Returns (fun _ _ _ => True) fun _ _ _ => True) := by
  intro past w trace result w' _ _
  refine ⟨throughout_iff.mpr fun _ _ _ _ => trivial, fun r _ => ?_⟩
  cases r <;> trivial

/-- A loaded identity has the fields of the record that was read. -/
theorem loadMachineIdentity_meets (p : Platform) (bytes : Bytes) :
    Meets (holding bytes : Environment enrollSignature W) (fun _ _ => True) (fun _ _ => True)
      (loadMachineIdentity p).run (Returns (fun _ _ _ => True) fun identity _ _ =>
        ∃ record publicKey, p.recordFromJson bytes = some record ∧
          record.intoIdentity publicKey = .ok identity) := by
  refine Meets.andThen meets_anyhow fun keypair => ?_
  refine Meets.andThen meets_anyhow fun publicKey => ?_
  have hread : Meets (holding bytes : Environment enrollSignature W) (fun _ _ => True)
      (fun _ _ => True) (readOrFail .record).run
      (Returns (fun _ _ _ => True) fun contents _ _ => contents = bytes) := by
    refine meets_ask fun past w answer w' _ henv => ⟨trivial, ?_⟩
    cases answer with
    | error e => trivial
    | ok contents => exact henv contents rfl
  have hload : Meets (holding bytes : Environment enrollSignature W) (fun _ _ => True)
      (fun _ _ => True) (loadRecord p).run
      (Returns (fun _ _ _ => True) fun record _ _ => p.recordFromJson bytes = some record) := by
    refine Meets.andThen hread fun contents => ?_
    refine meets_of_fact (fun _ _ h => h) ?_
    rintro rfl
    refine (meets_ofExcept fun _ _ _ _ _ => trivial).post fun r past w h => ?_
    cases r with
    | error e => trivial
    | ok record => exact okOr_eq_ok.mp h.2
  refine Meets.andThen hload fun record => ?_
  refine (meets_ofExcept fun _ _ _ _ _ => trivial).post fun r past w h => ?_
  cases r with
  | error e => trivial
  | ok identity => exact ⟨record, publicKey, h.1, h.2⟩

theorem intoIdentity_fits {record : MachineRecord} {publicKey : Text} {identity : MachineIdentity}
    (h : record.intoIdentity publicKey = .ok identity) :
    IdentityFits identity ↔ RecordFits record := by
  obtain ⟨enrolledAt, _, hidentity⟩ := okOr_bind_eq_ok.mp h
  obtain rfl := pure_eq_ok.mp hidentity
  exact Iff.rfl

theorem isAlphanum_ascii {c : Char} (h : c.isAlphanum = true) : c.toNat < 128 := by
  have hle : ∀ d : UInt32, c.val ≤ d → c.toNat ≤ d.toNat := fun d hd => UInt32.le_iff_toNat_le.mp hd
  have halphanum : c.isAlphanum = ((decide ('A'.val ≤ c.val ∧ c.val ≤ 'Z'.val) ||
      decide ('a'.val ≤ c.val) && decide (c.val ≤ 'z'.val)) ||
      decide ('0'.val ≤ c.val) && decide (c.val ≤ '9'.val)) := rfl
  simp only [halphanum, Bool.or_eq_true, Bool.and_eq_true, decide_eq_true_eq] at h
  rcases h with (⟨_, h⟩ | ⟨_, h⟩) | ⟨_, h⟩ <;> exact lt_of_le_of_lt (hle _ h) (by decide)

theorem isMachineIdChar_ascii {c : Char} (h : isMachineIdChar c = true) : c.toNat < 128 := by
  simp only [isMachineIdChar, Bool.or_eq_true, beq_iff_eq] at h
  rcases h with ((h | rfl) | rfl) | rfl
  · exact isAlphanum_ascii h
  all_goals decide

theorem isValidInterval_range {secs : UInt64} (h : isValidInterval secs = true) :
    1 ≤ secs.toNat ∧ secs.toNat ≤ 86400 := by
  simp only [isValidInterval, Bool.and_eq_true, decide_eq_true_eq, UInt64.le_iff_toNat_le] at h
  exact h

theorem fitsRules_of_valid {ext : Crypto} {response : EnrollmentResponse}
    {serverUrl hostname : Text} (hurl : validateServerUrl serverUrl = .ok ())
    (hhost : validateHostname hostname = .ok ()) (h : validateResponse ext response = .ok ()) :
    FitsRules response.machineId hostname serverUrl response.heartbeatInterval
      response.syncInterval := by
  obtain ⟨hempty, h⟩ := check_bind_eq_ok.mp h
  obtain ⟨hid, h⟩ := check_bind_eq_ok.mp h
  obtain ⟨hinterval, _⟩ := check_bind_eq_ok.mp h
  obtain ⟨hlength, hchars⟩ := not_or.mp (rejectIf_eq_ok.mp hid)
  obtain ⟨hheartbeat, hsync⟩ := not_or.mp (rejectIf_eq_ok.mp hinterval)
  have hchars : ∀ c ∈ response.machineId, isMachineIdChar c = true :=
    List.all_eq_true.mp (Bool.not_eq_false _ ▸ hchars)
  rw [byteLength_ascii fun c hc => isMachineIdChar_ascii (hchars c hc)] at hlength
  refine ⟨⟨?_, not_lt.mp hlength⟩, hchars, hhost, hurl, ?_, ?_⟩
  · exact List.length_pos_iff.mpr (rejectIf_eq_ok.mp hempty)
  · exact isValidInterval_range (Bool.not_eq_false _ ▸ hheartbeat)
  · exact isValidInterval_range (Bool.not_eq_false _ ▸ hsync)

/-- A record that `persist_machine_identity` saves. -/
def Saved (p : Platform) (record : MachineRecord) : Prop :=
  ∃ (env : Environment enrollSignature Unit) (serverUrl hostname : Text) (keypair : MachineKeypair)
    (response : EnrollmentResponse) (trace : List (EnrollEvent Unit)) (identity : MachineIdentity),
    Exec env (persistMachineIdentity p serverUrl hostname keypair response).run () trace
      (some (.ok identity)) () ∧ record = identity.toRecord

theorem Saved.fits {p : Platform} {record : MachineRecord} (h : Saved p record) :
    RecordFits record := by
  obtain ⟨env, serverUrl, hostname, keypair, response, trace, identity, hexec, rfl⟩ := h
  have hmeets : Meets env (fun _ _ => True) (fun _ _ => True)
      (persistMachineIdentity p serverUrl hostname keypair response).run
      (Returns (fun _ _ _ => True) fun identity _ _ => RecordFits identity.toRecord) := by
    refine meets_ofExcept_bind (fun _ _ _ _ _ => trivial) fun _ hurl => ?_
    refine meets_ofExcept_bind (fun _ _ _ _ _ => trivial) fun _ hhost => ?_
    refine meets_ofExcept_bind (fun _ _ _ _ _ => trivial) fun _ hvalid => ?_
    have hfits := fitsRules_of_valid hurl hhost hvalid
    exact meets_anyhow.andThen fun publicKey => meets_anyhow.andThen fun now =>
      meets_anyhow.andThen fun _ => meets_pure fun _ _ _ => hfits
  exact (hmeets [] () trace _ () trivial hexec).2 _ rfl

/-- An identity that was loaded satisfies the rules, with what they mean for its scheduler, just
where the record on disk does. So does every identity that was saved. -/
theorem loaded_fits_iff {p : Platform} {bytes : Bytes} {record : MachineRecord}
    {identity : MachineIdentity} {w w' : W} {trace : List (EnrollEvent W)}
    (hrecord : p.recordFromJson bytes = some record)
    (hload : Exec (holding bytes) (loadMachineIdentity p).run w trace (some (.ok identity)) w') :
    (IdentityFits identity ∧ (∀ ratio, Schedules T W (cadence identity.heartbeatInterval ratio)
        (cadence identity.syncInterval ratio)) ↔ RecordFits record) ∧
      (Saved p record → RecordFits record) := by
  obtain ⟨_, hend⟩ := loadMachineIdentity_meets p bytes [] w trace _ w' trivial hload
  obtain ⟨parsed, publicKey, hparsed, hinto⟩ := hend _ rfl
  obtain rfl : record = parsed := Option.some.inj (hrecord.symm.trans hparsed)
  have hfits := intoIdentity_fits hinto
  refine ⟨⟨fun h => hfits.mp h.1, fun h => ?_⟩, Saved.fits⟩
  exact ⟨hfits.mpr h, schedules_of_fits (hfits.mpr h)⟩

/-- The machine of a finished enrollment, with this record. -/
def recorded (bytes : Bytes) : Machine :=
  (emptyMachine.install .privateKey (encodeUtf8 samplePem)).install .record bytes

theorem sample_loaded (parse : Bytes → Option MachineRecord) {bytes : Bytes}
    {record : MachineRecord} {identity : MachineIdentity} (hparse : parse bytes = some record)
    (hinto : record.intoIdentity samplePublicLine = .ok identity) :
    ∃ trace, Exec (holding bytes)
      (loadMachineIdentity { samplePlatform with recordFromJson := parse }).run (recorded bytes)
      trace (some (.ok identity)) (recorded bytes) := by
  have hload := Boots.sample_load Boots.accepting (m := recorded bytes) parse rfl rfl hparse hinto
  have hexec := exec_play (script_enrolling ⟨Boots.accepting, fun _ => false⟩)
    (loadMachineIdentity { samplePlatform with recordFromJson := parse }).run (recorded bytes)
  rw [outcome] at hload
  rw [hload] at hexec
  obtain ⟨_, hsame⟩ := hexec.invariant (I := (· = recorded bytes)) (fun e he hbefore =>
    (enrolling_quiet (hexec.event_env e he)
      (hexec.event_calls Boots.calls_loadMachineIdentity e he)).trans hbefore) rfl
  refine ⟨_, hexec.of_events fun e he => ?_⟩
  have hbefore := (hsame e he).1
  have henv := hexec.event_env e he
  obtain ⟨before, op, answer, after⟩ := e
  obtain rfl : before = recorded bytes := hbefore
  cases op with
  | read file =>
    cases file with
    | record => exact fun contents hcontents => (Option.some.inj (henv.1 contents hcontents)).symm
    | _ => trivial
  | _ => trivial

theorem sampleRecord_fits : RecordFits sampleRecord where
  machineId_length := by decide +kernel
  machineId_chars := List.all_eq_true.mp (by decide +kernel)
  hostname_valid := by decide +kernel
  serverUrl_valid := by decide +kernel
  heartbeat_range := by decide
  sync_range := by decide

theorem loaded_fits_iff_sample : IdentityFits Boots.sampleIdentity ∧ ∀ ratio, Schedules Unit Machine
    (cadence Boots.sampleIdentity.heartbeatInterval ratio)
    (cadence Boots.sampleIdentity.syncInterval ratio) := by
  have hparse : samplePlatform.recordFromJson Boots.sampleRecordBytes = some sampleRecord :=
    if_pos rfl
  have hinto : sampleRecord.intoIdentity samplePublicLine = .ok Boots.sampleIdentity := rfl
  obtain ⟨trace, hload⟩ := sample_loaded samplePlatform.recordFromJson hparse hinto
  exact (loaded_fits_iff (T := Unit) hparse hload).1.mpr sampleRecord_fits

/-- Somebody edited the record. -/
def idleRecord : MachineRecord := { sampleRecord with heartbeatIntervalSecs := 0 }

def idleBytes : Bytes := encodeUtf8 (recordJson idleRecord) ++ encodeUtf8 ['\n']

def parseIdle (bytes : Bytes) : Option MachineRecord :=
  if bytes = idleBytes then some idleRecord else none

/-- A record without a pause between heartbeats is loaded. -/
theorem idle_record_loaded : ¬ ∀ (p : Platform) (bytes : Bytes) (identity : MachineIdentity)
    (m m' : Machine) (trace : List (EnrollEvent Machine)),
    Exec (holding bytes) (loadMachineIdentity p).run m trace (some (.ok identity)) m' →
      IdentityFits identity ∧ ∀ ratio, Schedules Unit Machine
        (cadence identity.heartbeatInterval ratio) (cadence identity.syncInterval ratio) := by
  intro h
  have hparse : parseIdle idleBytes = some idleRecord := if_pos rfl
  have hinto : idleRecord.intoIdentity samplePublicLine =
      .ok { Boots.sampleIdentity with heartbeatInterval := 0 } := rfl
  obtain ⟨trace, hload⟩ := sample_loaded parseIdle hparse hinto
  have hpositive := (h _ _ _ _ _ _ hload).1.heartbeat_range.1
  exact absurd hpositive (by decide)

end MayflyAgent.LoadedIdentities
