import MayflyAgent.Attempts
import MayflyAgent.Contracts
import MayflyAgent.EnrollmentRuns

/-!
The start of `Daemon::run` and a shutdown that is requested while the machine enrolls. The start
asks for the flag once it has an identity and then ends well; but the retry loop, which asks for
the same flag, ends with an error when it sees it set, and this error is handed on first.
-/
namespace MayflyAgent.CleanExits

open RustText Programs Contracts Budgets Checks Errors Bundles StateFiles Enrollment Attempts
open CaSync (HttpResponse)
open EnrollmentRuns (reachable emptyMachine samplePlatform sampleUrl sampleToken sampleHost
  sampleToken_valid sampleResponse sampleResponseBody)

/-- What follows the check of the flag, up to the end of the poll loop, is one call. -/
inductive StartOp
  | ensureStateDir
  | installSignalHandlers
  | hostFacts
  | shutdownRequested
  | serve (identity : MachineIdentity)

@[reducible] def StartOp.Answer : StartOp → Type
  | ensureStateDir => Except Error Unit
  | installSignalHandlers => Except Error Unit
  | hostFacts => Text
  | shutdownRequested => Bool
  | serve _ => Except Error Unit

abbrev startSignature : Signature :=
  enrollSignature.sum { Op := StartOp, Answer := StartOp.Answer }

abbrev StartAction := Action startSignature Error

abbrev StartEvent := Event startSignature

def askStart (op : StartOp) : StartAction op.Answer :=
  Action.perform (S := startSignature) (.inr op)

variable (p : Platform)

/-- `Daemon::run`. -/
def run (config : Config) (fuel : Nat) : StartAction Unit := do
  let stateDir : Except Error Unit ← askStart .ensureStateDir
  Action.ofExcept stateDir
  let handlers : Except Error Unit ← askStart .installSignalHandlers
  Action.ofExcept handlers
  let hostname : Text ← askStart .hostFacts
  let identity ← ExceptT.mk (ensureEnrolled p config hostname fuel).run.inl
  if ← askStart .shutdownRequested then pure ()
  else
    let served : Except Error Unit ← askStart (.serve identity)
    Action.ofExcept served

/-- Whether there is a machine record, and whether a shutdown was requested. -/
structure Moment where
  enrolled : Bool
  requested : Bool
  deriving DecidableEq

/-- A check sees what held before it, and may see what only holds behind it. -/
def Sees (before : Moment) (seen : Bool) (after : Moment) : Prop :=
  (before.requested = true → seen = true) ∧ (seen = true → after.requested = true)

/-- The calls of enrollment. Attempts and reads of the pin file are answered anyhow, and the record
may be written whenever. -/
def enrollingCalls : Environment enrollSignature Moment := fun before op answer after =>
  (before.requested = true → after.requested = true) ∧
    match op, answer with
    | .isFile .record, (found : Bool) => found = before.enrolled
    | .enrollmentToken, (answer : Option Text) =>
      ∃ token, answer = some token ∧ validateToken token = .ok ()
    | .connect, (answer : Except Error Unit) => answer = .ok ()
    | .writeState _ _ _, (answer : Except Error Unit) => answer = .ok ()
    | .shutdownRequested, (seen : Bool) => Sees before seen after
    | _, _ => True

/-- The start of the daemon goes well around them. -/
def starting : Environment startSignature Moment := fun before op answer after =>
  match op, answer with
  | .inl op, answer => enrollingCalls before op answer after
  | .inr op, answer => (before.requested = true → after.requested = true) ∧
      after.enrolled = before.enrolled ∧
      match op, answer with
      | .ensureStateDir, answer => answer = .ok ()
      | .installSignalHandlers, answer => answer = .ok ()
      | .shutdownRequested, seen => Sees before seen after
      | _, _ => True

/-- The events of `ensure_enrolled`. -/
def enrollEvents (trace : List (StartEvent Moment)) : List (EnrollEvent Moment) :=
  trace.filterMap fun
    | ⟨before, .inl op, answer, after⟩ => some ⟨before, op, answer, after⟩
    | ⟨_, .inr _, _, _⟩ => none

/-- A shutdown is requested before `ensure_enrolled` ends. -/
def RequestedDuringEnrollment (trace : List (StartEvent Moment)) : Prop :=
  ∃ e ∈ enrollEvents trace, e.after.requested = true

def isServe : startSignature.Op → Bool
  | .inr (.serve _) => true
  | _ => false

/-- The daemon ends well and does not go on to the poll loop. -/
def ExitsCleanly (result : Except Error Unit) (trace : List (StartEvent Moment)) : Prop :=
  result = .ok () ∧ ∀ e ∈ trace, isServe e.op = false

/-- The retry loop does not see the flag set, and the pin file, if it is asked for, is text. -/
def Unhindered : EnrollEvent Moment → Prop
  | ⟨_, .shutdownRequested, (seen : Bool), _⟩ => seen = false
  | ⟨_, .readState _, (answer : Except ReadError Bytes), _⟩ => (stringOf answer).isOk = true
  | _ => True

variable {p}

section Unhindered

variable {α : Type}

/-- Nothing that was called hindered the enrollment. -/
def Clear (past : List (EnrollEvent Moment)) : Prop := ∀ e ∈ past, Unhindered e

theorem clear_append {past : List (EnrollEvent Moment)} {e : EnrollEvent Moment} :
    Clear (past ++ [e]) ↔ Clear past ∧ Unhindered e := by
  simp [Clear, or_imp, forall_and]

/-- An enrollment fails just where something hindered it. -/
abbrev Decides (P : Condition enrollSignature Moment) (x : EnrollAction α) : Prop :=
  Meets enrollingCalls (fun _ _ => True) P x.run
    (Returns (fun _ past _ => ¬ Clear past) fun _ past _ => Clear past)

theorem attempt_keeps (config : Config) (token hostname : Text) :
    Meets enrollingCalls (fun _ _ => True) (fun past _ => Clear past)
      (attemptEnrollment p config token hostname).run
      (Returns (fun _ past _ => Clear past) fun _ past _ => Clear past) := by
  refine meets_keeps_action (ends_attemptEnrollment config token hostname).calls
    fun past v op answer v' hop hpast _ => ⟨trivial, clear_append.mpr ⟨hpast, ?_⟩⟩
  cases op <;> trivial

theorem ask_meets {P : Condition enrollSignature Moment}
    {F : Error → Condition enrollSignature Moment} (op : EnrollOp)
    {M : op.Answer → Condition enrollSignature Moment}
    (h : ∀ past v answer v', P past v → enrollingCalls v op answer v' →
      M answer (past ++ [⟨v, op, answer, v'⟩]) v') :
    Meets enrollingCalls (fun _ _ => True) P (ask op).run (Returns F M) :=
  meets_perform fun past v answer v' hP henv => ⟨trivial, h past v answer v' hP henv⟩

/-- A check decides whether the retry loop goes on. -/
theorem shutdownRequested_meets :
    Meets enrollingCalls (fun _ _ => True) (fun past _ => Clear past) shutdownRequested.run
      (Returns (fun _ past _ => ¬ Clear past) fun (seen : Bool) past _ =>
        if seen then ¬ Clear past else Clear past) := by
  refine ask_meets .shutdownRequested fun past v answer v' hpast _ => ?_
  cases answer with
  | true =>
    show ¬ Clear _
    rw [clear_append]
    exact fun h => Bool.noConfusion h.2
  | false =>
    show Clear _
    exact clear_append.mpr ⟨hpast, rfl⟩

theorem retryWithBackoff_decides {op : EnrollAction α}
    (hop : Meets enrollingCalls (fun _ _ => True) (fun past _ => Clear past) op.run
      (Returns (fun _ past _ => Clear past) fun _ past _ => Clear past)) (fuel : Nat) :
    ∀ (attempt : UInt32) (lastErr : Option Error),
    Decides (fun past _ => Clear past) (retryWithBackoff op attempt lastErr fuel) := by
  induction fuel with
  | zero => exact fun _ _ => meets_running
  | succ fuel ih =>
    intro attempt lastErr
    refine Meets.andThen shutdownRequested_meets fun (seen : Bool) => ?_
    cases seen with
    | true => exact meets_throw fun _ _ h => h
    | false =>
      refine Meets.andThen hop.attempt fun outcome => ?_
      cases outcome with
      | ok value => exact meets_pure fun _ _ h => h
      | error err =>
        refine Meets.andThen shutdownRequested_meets fun (seen : Bool) => ?_
        cases seen with
        | true => exact meets_throw fun _ _ h => h
        | false =>
          refine Meets.andThen (ask_meets (.sleep _) (M := fun _ past _ => Clear past) ?_)
            fun _ => ih _ _
          exact fun past v answer v' hpast _ => clear_append.mpr ⟨hpast, trivial⟩

theorem pinBundleSigningKey_decides (config : Config) (key : Option Text) :
    Decides (fun past _ => Clear past) (pinBundleSigningKey config key) := by
  unfold pinBundleSigningKey
  split
  · exact meets_pure fun _ _ h => h
  split
  · exact meets_pure fun _ _ h => h
  refine Meets.andThen (ask_meets (.readState .signingKey)
    (M := fun (answer : Except ReadError Bytes) past _ =>
      ((stringOf answer).isOk = true ↔ Clear past)) ?_) fun (answer : Except ReadError Bytes) => ?_
  · intro past v answer v' hpast _
    rw [clear_append]
    exact ⟨fun h => ⟨hpast, h⟩, fun h => h.2⟩
  refine meets_ofExcept_bind (fun past v err h herror => ?_) fun existing hexisting => ?_
  · rw [herror] at h
    exact fun hclear => Bool.noConfusion (h.mpr hclear)
  have hclear : ∀ past (v : Moment), ((stringOf answer).isOk = true ↔ Clear past) → Clear past := by
    intro past v h
    rw [hexisting] at h
    exact h.mp rfl
  split
  · exact meets_pure hclear
  refine Meets.andThen (ask_meets (.writeState .signingKey _ _)
    (M := fun (answer : Except Error Unit) past _ => answer = .ok () ∧ Clear past) ?_)
    fun (answer : Except Error Unit) => ?_
  · intro past v answer v' h henv
    exact ⟨henv.2, clear_append.mpr ⟨hclear past v h, trivial⟩⟩
  refine meets_of_fact (fun past v h => h.1) fun hanswer => ?_
  rw [hanswer]
  exact meets_pure fun past v h => h.2

theorem ensureEnrolled_decides (config : Config) (hostname : Text) (fuel : Nat) :
    Decides (fun past v => past = [] ∧ v.enrolled = false)
      (ensureEnrolled p config hostname fuel) := by
  refine Meets.andThen (ask_meets (.isFile .record)
    (M := fun (found : Bool) past _ => found = false ∧ Clear past) ?_) fun (found : Bool) => ?_
  · rintro past v answer v' ⟨rfl, hv⟩ henv
    exact ⟨henv.2.trans hv, clear_append.mpr ⟨List.forall_mem_nil _, trivial⟩⟩
  refine meets_of_fact (fun past v h => h.1) fun hfound => ?_
  rw [hfound]
  refine Meets.andThen (ask_meets .enrollmentToken (M := fun (answer : Option Text) past _ =>
    (∃ token, answer = some token ∧ validateToken token = .ok ()) ∧ Clear past) ?_)
    fun (answer : Option Text) => ?_
  · intro past v answer v' h henv
    exact ⟨henv.2, clear_append.mpr ⟨h.2, trivial⟩⟩
  refine meets_of_fact (fun past v h => h.1) fun ⟨token, hanswer, hvalid⟩ => ?_
  rw [hanswer, okOr, ofExcept_ok_bind, hvalid, ofExcept_ok_bind]
  refine Meets.andThen (ask_meets .connect (M := fun (answer : Except Error Unit) past _ =>
    answer = .ok () ∧ Clear past) ?_) fun (answer : Except Error Unit) => ?_
  · intro past v answer v' h henv
    exact ⟨henv.2, clear_append.mpr ⟨h.2, trivial⟩⟩
  refine meets_of_fact (fun past v h => h.1) fun hconnected => ?_
  rw [hconnected, ofExcept_ok_bind]
  refine Meets.andThen ((retryWithBackoff_decides (attempt_keeps config token hostname)
    fuel 0 none).pre fun past v h => h.2) fun identity => ?_
  refine Meets.andThen (ask_meets .lastResponse (M := fun _ past _ => Clear past) ?_)
    fun (answer : Option EnrollmentResponse) => ?_
  · exact fun past v answer v' hpast _ => clear_append.mpr ⟨hpast, trivial⟩
  cases answer with
  | none => exact meets_pure fun _ _ h => h
  | some response =>
    exact Meets.andThen (pinBundleSigningKey_decides config _) fun _ => meets_pure fun _ _ h => h

end Unhindered

section Requested

variable {α β : Type} {S : Signature} {env : Environment S Moment} {n : Nat}

abbrev Requested (w : Moment) : Prop := w.requested = true

/-- Behind the request the action ends. -/
abbrev Stopping (env : Environment S Moment) (x : Action S Error α) : Prop :=
  ∀ w, Requested w → Within env (fun _ => 0) (fun _ w' => Requested w') x.run w 0

/-- The action ends behind a request that comes with one of its first calls. -/
abbrev Winding (env : Environment S Moment) (x : Action S Error α) (n : Nat) : Prop :=
  ∀ w, WindsDown env (fun _ => 0) Requested (fun _ w' => Requested w') 0 x.run n w

theorem stopping_bind {x : Action S Error α} {f : α → Action S Error β} (hx : Stopping env x)
    (hf : ∀ a, Stopping env (f a)) : Stopping env (x >>= f) :=
  fun w hw => (hx w hw).andThen (fun a w' h => hf a w' h) (fun _ _ h => h) le_rfl

theorem winding_bind {x : Action S Error α} {f : α → Action S Error β} (hx : Winding env x n)
    (hleft : 0 < n → ∀ a, Stopping env (f a)) (hf : ∀ a, Winding env (f a) n) :
    Winding env (x >>= f) n :=
  fun w => (hx w).andThen (yieldsOk_trivial _) (fun hn a w' _ h => hleft hn a w' h)
    (fun _ _ h => h) (fun a w' _ => hf a w') le_rfl

/-- Both at once. -/
def Ready (env : Environment S Moment) (x : Action S Error α) (n : Nat) : Prop :=
  (0 < n → Stopping env x) ∧ Winding env x n

theorem Ready.bind {x : Action S Error α} {f : α → Action S Error β} (hx : Ready env x n)
    (hf : ∀ a, Ready env (f a) n) : Ready env (x >>= f) n :=
  ⟨fun hn => stopping_bind (hx.1 hn) fun a => (hf a).1 hn,
    winding_bind hx.2 (fun hn a => (hf a).1 hn) fun a => (hf a).2⟩

theorem winding_first {op : S.Op} {f : S.Answer op → Action S Error β}
    (hleft : ∀ answer, Stopping env (f answer)) (hf : ∀ answer, Winding env (f answer) n) :
    Winding env (Action.perform op >>= f) (n + 1) :=
  fun _ answer w' _ => ⟨fun hw' => ⟨0, le_rfl, hleft answer w' hw'⟩, hf answer w'⟩

variable (hkeeps : ∀ w op answer w', env w op answer w' → Requested w → Requested w')
include hkeeps

theorem stopping_of_ends {x : Action S Error α} (h : EndsCalling (fun _ => True) x.run) :
    Stopping env x := fun _ hw => h.within hkeeps hw

theorem winding_of_ends {x : Action S Error α} (h : EndsCalling (fun _ => True) x.run) :
    Winding env x n := fun _ => h.windsDown hkeeps

theorem ready_of_ends {x : Action S Error α} (h : EndsCalling (fun _ => True) x.run) :
    Ready env x n := ⟨fun _ => stopping_of_ends hkeeps h, winding_of_ends hkeeps h⟩

end Requested

section Stopping

variable {α : Type} {n : Nat}

theorem enrollingCalls_keeps (w : Moment) (op : EnrollOp) (answer : op.Answer) (w' : Moment)
    (h : enrollingCalls w op answer w') : Requested w → Requested w' := h.1

theorem shutdownRequested_stops {f : Bool → EnrollAction α}
    (hf : Stopping enrollingCalls (f true)) :
    Stopping enrollingCalls (shutdownRequested >>= f) := by
  refine fun w hw => ⟨0, le_rfl, fun (seen : Bool) w' henv => ?_⟩
  obtain rfl : seen = true := henv.2.1 hw
  exact hf w' (henv.1 hw)

theorem retryWithBackoff_stopping (op : EnrollAction α) (attempt : UInt32) (lastErr : Option Error)
    (fuel : Nat) : Stopping enrollingCalls (retryWithBackoff op attempt lastErr (fuel + 1)) :=
  shutdownRequested_stops fun _ hw => hw

theorem retryBehindFailure_stopping (op : EnrollAction α) (attempt : UInt32) (err : Error)
    (fuel : Nat) (requested : Bool) :
    Stopping enrollingCalls (retryBehindFailure op attempt err (fuel + 1) requested) := by
  cases requested with
  | true => exact fun _ hw => hw
  | false =>
    exact stopping_bind (stopping_of_ends enrollingCalls_keeps (endsCalling_perform trivial))
      fun _ => retryWithBackoff_stopping op attempt (some err) fuel

theorem retryBehindAttempt_stopping (op : EnrollAction α) (attempt : UInt32) (fuel : Nat)
    (outcome : Except Error α) :
    Stopping enrollingCalls (retryBehindAttempt op attempt fuel outcome) := by
  cases outcome with
  | ok value => exact fun _ hw => hw
  | error err => exact shutdownRequested_stops fun _ hw => hw

theorem retryBehindCheck_stopping {op : EnrollAction α} (hop : EndsCalling (fun _ => True) op.run)
    (attempt : UInt32) (lastErr : Option Error) (fuel : Nat) (requested : Bool) :
    Stopping enrollingCalls (retryBehindCheck op attempt lastErr fuel requested) := by
  cases requested with
  | true => exact fun _ hw => hw
  | false =>
    exact stopping_bind (stopping_of_ends enrollingCalls_keeps (endsCalling_attempt hop))
      fun outcome => retryBehindAttempt_stopping op _ fuel outcome

theorem retryWithBackoff_winding {op : EnrollAction α}
    (hop : EndsCalling (fun _ => True) op.run) (fuel : Nat) :
    ∀ (attempt : UInt32) (lastErr : Option Error) (n : Nat), n < fuel →
    Winding enrollingCalls (retryWithBackoff op attempt lastErr fuel) n := by
  induction fuel with
  | zero => exact fun _ _ n hn => absurd hn (Nat.not_lt_zero n)
  | succ fuel ih =>
    intro attempt lastErr n hn
    cases n with
    | zero => exact fun _ => trivial
    | succ n =>
      have hfuel : n < fuel := Nat.lt_of_succ_lt_succ hn
      obtain ⟨more, rfl⟩ := Nat.exists_eq_succ_of_ne_zero (Nat.ne_zero_of_lt hfuel)
      have hcall : ∀ op : EnrollOp, Winding enrollingCalls (ask op) n :=
        fun op => winding_of_ends enrollingCalls_keeps (endsCalling_perform trivial)
      rw [retryWithBackoff_succ]
      refine winding_first (retryBehindCheck_stopping hop attempt lastErr _) fun requested => ?_
      cases requested with
      | true => exact fun _ => windsDown_done
      | false =>
        refine winding_bind (winding_of_ends enrollingCalls_keeps (endsCalling_attempt hop))
          (fun _ => retryBehindAttempt_stopping op _ _) fun outcome => ?_
        cases outcome with
        | ok value => exact fun _ => windsDown_done
        | error err =>
          refine winding_bind (hcall .shutdownRequested)
            (fun _ => retryBehindFailure_stopping op _ err more) fun requested => ?_
          cases requested with
          | true => exact fun _ => windsDown_done
          | false =>
            exact winding_bind (hcall (.sleep _))
              (fun _ _ => retryWithBackoff_stopping op _ _ more) fun _ => ih _ _ n hfuel

theorem ends_pinBundleSigningKey (config : Config) (key : Option Text) :
    EndsCalling (fun _ => True) (pinBundleSigningKey config key).run := by
  unfold pinBundleSigningKey
  split
  · trivial
  split
  · trivial
  refine endsCalling_bind (endsCalling_perform trivial) fun answer => ?_
  refine endsCalling_bind trivial fun existing => ?_
  split
  · trivial
  exact endsCalling_bind (endsCalling_perform trivial) fun _ =>
    endsCalling_bind trivial fun _ => trivial

/-- What follows the retry loop. -/
def pinAndReturn (config : Config) (identity : MachineIdentity) : EnrollAction MachineIdentity := do
  match ← ask .lastResponse with
  | some response =>
    let _ ← pinBundleSigningKey config response.bundleSigningKey
    pure identity
  | none => pure identity

theorem ends_pinAndReturn (config : Config) (identity : MachineIdentity) :
    EndsCalling (fun _ => True) (pinAndReturn config identity).run := by
  refine endsCalling_bind (endsCalling_perform trivial)
    fun (answer : Option EnrollmentResponse) => ?_
  cases answer with
  | none => trivial
  | some response => exact endsCalling_bind (ends_pinBundleSigningKey _ _) fun _ => trivial

theorem retryWithBackoff_ready {op : EnrollAction α} (hop : EndsCalling (fun _ => True) op.run)
    {fuel : Nat} (hn : n < fuel) : Ready enrollingCalls (retryWithBackoff op 0 none fuel) n := by
  obtain ⟨more, rfl⟩ := Nat.exists_eq_succ_of_ne_zero (Nat.ne_zero_of_lt hn)
  exact ⟨fun _ => retryWithBackoff_stopping op 0 none more,
    retryWithBackoff_winding hop _ 0 none n hn⟩

theorem ensureEnrolled_ready (config : Config) (hostname : Text) {fuel : Nat} (hn : n < fuel) :
    Ready enrollingCalls (ensureEnrolled p config hostname fuel) n := by
  have hends : ∀ {α : Type} {x : EnrollAction α}, EndsCalling (fun _ => True) x.run →
      Ready enrollingCalls x n := ready_of_ends enrollingCalls_keeps
  have hcall : ∀ op : EnrollOp, Ready enrollingCalls (ask op) n :=
    fun op => hends (endsCalling_perform trivial)
  have hcheck : ∀ {α : Type} {r : Except Error α}, Ready enrollingCalls (Action.ofExcept r) n :=
    hends trivial
  refine (hcall (.isFile .record)).bind fun (found : Bool) => ?_
  cases found with
  | true => exact hends (ends_loadMachineIdentity.mono fun _ _ => trivial)
  | false =>
    refine (hcall .enrollmentToken).bind fun token => hcheck.bind fun token => ?_
    refine hcheck.bind fun _ => (hcall .connect).bind fun client => hcheck.bind fun _ => ?_
    have hop : EndsCalling (fun _ => True) (attemptEnrollment p config token hostname).run :=
      (ends_attemptEnrollment config token hostname).mono fun _ _ => trivial
    exact (retryWithBackoff_ready hop hn).bind fun identity =>
      hends (ends_pinAndReturn config identity)

end Stopping

theorem enrollEvents_inl (inner : List (EnrollEvent Moment)) (rest : List (StartEvent Moment)) :
    enrollEvents (inner.map Event.inl ++ rest) = inner ++ enrollEvents rest := by
  induction inner with
  | nil => rfl
  | cons e inner ih => exact congrArg (e :: ·) ih

theorem no_serve_inl (inner : List (EnrollEvent Moment)) :
    ∀ e ∈ inner.map (Event.inl (T := { Op := StartOp, Answer := StartOp.Answer })),
      isServe e.op = false := by
  intro e he
  obtain ⟨inner, _, rfl⟩ := List.mem_map.mp he
  rfl

/-- The daemon behind its first calls. -/
def enrollAndServe (p : Platform) (config : Config) (hostname : Text) (fuel : Nat) :
    StartAction Unit := do
  let identity ← ExceptT.mk (ensureEnrolled p config hostname fuel).run.inl
  if ← askStart .shutdownRequested then pure ()
  else
    let served : Except Error Unit ← askStart (.serve identity)
    Action.ofExcept served

/-- What enrollment comes to, and what it leaves. -/
theorem enrollment_decided {config : Config} {hostname : Text} {fuel : Nat} {w w' : Moment}
    {trace : List (StartEvent Moment)} {r : Except Error MachineIdentity}
    (h : Exec starting (ensureEnrolled p config hostname fuel).run.inl w trace (some r) w')
    (hw : w.enrolled = false) : ∃ inner, trace = inner.map Event.inl ∧
      (∀ e ∈ inner, e.after.requested = true → w'.requested = true) ∧
      Returns (fun _ past _ => ¬ Clear past) (fun _ past _ => Clear past) r inner w' := by
  obtain ⟨inner, rfl, hinner⟩ := exec_inl h
  have hdecided := (ensureEnrolled_decides config hostname fuel [] w inner _ w' ⟨rfl, hw⟩ hinner).2
  have hkept := hinner.relates_around
    (R := fun v v' : Moment => v.requested = true → v'.requested = true) (fun _ hv => hv)
    (fun _ _ _ huv hvx hu => hvx (huv hu)) fun e he => (hinner.event_env e he).1
  exact ⟨inner, rfl, fun e he => (hkept e he).2, hdecided r rfl⟩

theorem enrollAndServe_iff {config : Config} {hostname : Text} {fuel : Nat} {w w' : Moment}
    {trace : List (StartEvent Moment)} {result : Except Error Unit}
    (hexec : Exec starting (enrollAndServe p config hostname fuel).run w trace (some result) w')
    (hw : w.enrolled = false) (hrequested : RequestedDuringEnrollment trace) :
    ExitsCleanly result trace ↔ ∀ e ∈ enrollEvents trace, Unhindered e := by
  rcases exec_action_bind hexec with ⟨hnone, _⟩ | ⟨err, hnone | hsome, henroll⟩ |
    ⟨identity, first, second, w₁, rfl, henroll, hrest⟩
  · cases hnone
  · cases hnone
  · -- The error is handed on, so the daemon does not look at the flag.
    obtain rfl := Option.some.inj hsome
    obtain ⟨inner, rfl, _, hfailed⟩ := enrollment_decided henroll hw
    have hevents : enrollEvents (inner.map Event.inl) = inner := by
      rw [← List.append_nil (inner.map Event.inl), enrollEvents_inl]
      exact List.append_nil inner
    rw [hevents]
    exact ⟨fun h => (nomatch h.1), fun h => absurd h hfailed⟩
  · obtain ⟨inner, rfl, hset, hclear⟩ := enrollment_decided henroll hw
    rcases exec_perform_bind hrest with ⟨_, hnone, _⟩ | ⟨(seen : Bool), w₂, rest, rfl, henv, hrest⟩
    · cases hnone
    have hevents : enrollEvents (inner.map Event.inl ++
        ⟨w₁, .inr .shutdownRequested, seen, w₂⟩ :: rest) = inner ++ enrollEvents rest :=
      enrollEvents_inl inner _
    rw [RequestedDuringEnrollment, hevents] at hrequested
    rw [hevents]
    cases seen with
    | true =>
      obtain ⟨rfl, _, hresult⟩ := exec_pure hrest
      rcases hresult with hnone | hsome
      · cases hnone
      obtain rfl := Option.some.inj hsome
      rw [show enrollEvents [] = [] from rfl, List.append_nil]
      refine ⟨fun _ => hclear, fun _ => ⟨rfl, fun e he => ?_⟩⟩
      rcases List.mem_append.mp he with he | he
      · exact no_serve_inl inner e he
      · obtain rfl := List.mem_singleton.mp he
        rfl
    | false =>
      have hrest : enrollEvents rest = [] := by
        rcases exec_ask _ _ hrest with ⟨rfl, _⟩ | ⟨answer, rfl, _⟩
        · rfl
        · rfl
      rw [hrest, List.append_nil] at hrequested
      obtain ⟨e, he, hafter⟩ := hrequested
      exact absurd (henv.2.2.1 (hset e he hafter)) Bool.false_ne_true

theorem exitsCleanly_cons {e : StartEvent Moment} {trace : List (StartEvent Moment)}
    {result : Except Error Unit} (he : isServe e.op = false) :
    ExitsCleanly result (e :: trace) ↔ ExitsCleanly result trace := by
  simp [ExitsCleanly, he]

theorem starting_keeps (w : Moment) (op : startSignature.Op) (answer : startSignature.Answer op)
    (w' : Moment) (h : starting w op answer w') : Requested w → Requested w' := by
  cases op with
  | inl op => exact h.1
  | inr op => exact h.1

theorem run_ready (config : Config) {fuel n : Nat} (hn : n < fuel) :
    Ready starting (run p config fuel) n := by
  have hcall : ∀ op : StartOp, Ready starting (askStart op) n :=
    fun op => ready_of_ends starting_keeps (endsCalling_perform trivial)
  have hcheck : ∀ {α : Type} {r : Except Error α}, Ready starting (Action.ofExcept r) n :=
    ready_of_ends starting_keeps trivial
  refine (hcall .ensureStateDir).bind fun _ => hcheck.bind fun _ => ?_
  refine (hcall .installSignalHandlers).bind fun _ => hcheck.bind fun _ => ?_
  refine (hcall .hostFacts).bind fun hostname => ?_
  have hready := ensureEnrolled_ready (p := p) config hostname hn
  refine Ready.bind ⟨fun hn w hw => (hready.1 hn w hw).inl, fun w => (hready.2 w).inl⟩
    fun identity => ?_
  refine (hcall .shutdownRequested).bind fun (seen : Bool) => ?_
  cases seen with
  | true => exact ready_of_ends starting_keeps trivial
  | false => exact (hcall (.serve identity)).bind fun _ => hcheck

theorem run_terminates (config : Config) {fuel : Nat} {w w' : Moment}
    {past : List (StartEvent Moment)} {e : StartEvent Moment}
    {q : Program startSignature (Except Error Unit)}
    (hleads : Leads starting (run p config fuel).run w (past ++ [e]) q w')
    (he : e.after.requested = true) (hfuel : past.length + 1 < fuel) :
    Terminates starting q w' := by
  have hw' : Requested w' := (congrArg Moment.requested (leads_after hleads)).trans he
  obtain ⟨left, hleft, hwithin⟩ :=
    ((run_ready config hfuel).2 w).ends hleads (Nat.lt_succ_self _) hw'
  have hleft : left ≤ 0 := by omega
  exact (hwithin.mono hleft).post fun _ _ _ => trivial

theorem run_exits_iff {config : Config} {fuel : Nat} {w w' : Moment}
    {trace : List (StartEvent Moment)} {result : Except Error Unit}
    (hexec : Exec starting (run p config fuel).run w trace (some result) w')
    (hw : w.enrolled = false) (hrequested : RequestedDuringEnrollment trace) :
    ExitsCleanly result trace ↔ ∀ e ∈ enrollEvents trace, Unhindered e := by
  rcases exec_perform_bind hexec with ⟨_, hnone, _⟩ | ⟨stateDir, w₁, rest, rfl, henv, hexec⟩
  · cases hnone
  obtain ⟨_, hw₁, rfl⟩ := henv
  rw [ofExcept_ok_bind] at hexec
  rcases exec_perform_bind hexec with ⟨_, hnone, _⟩ | ⟨handlers, w₂, rest, rfl, henv, hexec⟩
  · cases hnone
  obtain ⟨_, hw₂, rfl⟩ := henv
  rw [ofExcept_ok_bind] at hexec
  rcases exec_perform_bind hexec with ⟨_, hnone, _⟩ | ⟨hostname, w₃, rest, rfl, henv, hexec⟩
  · cases hnone
  have hunenrolled : w₃.enrolled = false := henv.2.1.trans (hw₂.trans (hw₁.trans hw))
  rw [exitsCleanly_cons rfl, exitsCleanly_cons rfl, exitsCleanly_cons rfl]
  have hexec : Exec starting (enrollAndServe p config hostname fuel).run w₃ rest (some result) w' :=
    hexec
  exact enrollAndServe_iff hexec hunenrolled hrequested

/-- A daemon ends once a shutdown is requested, and if that was before it was enrolled, it exits
cleanly just where no check of the retry loop saw the request and the pin file could be read. Every
round of the loop makes a call, so a loop that was unrolled for more rounds than there were calls is
not cut short. -/
theorem exits_cleanly_iff {config : Config} {fuel : Nat} {w : Moment} (hw : w.enrolled = false) :
    (∀ past e q w', Leads starting (run p config fuel).run w (past ++ [e]) q w' →
      e.after.requested = true → past.length + 1 < fuel → Terminates starting q w') ∧
    ∀ trace result w', Exec starting (run p config fuel).run w trace (some result) w' →
      RequestedDuringEnrollment trace →
      (ExitsCleanly result trace ↔ ∀ e ∈ enrollEvents trace, Unhindered e) :=
  ⟨fun _ _ _ _ => run_terminates config, fun _ _ _ hexec => run_exits_iff hexec hw⟩

/-- The server takes its time over the reply, and the request to shut down comes first. -/
def signalledAt (reply : HttpResponse) (response : Option EnrollmentResponse) (w : Moment) :
    (op : startSignature.Op) → Option (startSignature.Answer op × Moment)
  | .inl (.isFile _) => some (w.enrolled, w)
  | .inl (.secureWrite .record _ _) => some (.ok (), { w with enrolled := true })
  | .inl (.postJson _ _) => some (.ok reply, { w with requested := true })
  | .inl .shutdownRequested => some (w.requested, w)
  | .inl .lastResponse => some (response, w)
  | .inl op => some ((reachable emptyMachine reply op).1, w)
  | .inr .ensureStateDir => some (.ok (), w)
  | .inr .installSignalHandlers => some (.ok (), w)
  | .inr .hostFacts => some (sampleHost, w)
  | .inr .shutdownRequested => some (w.requested, w)
  | .inr (.serve _) => some (.ok (), w)

theorem signalledAt_starting (reply : HttpResponse) (response : Option EnrollmentResponse)
    (w : Moment) (op : startSignature.Op) (answer : startSignature.Answer op) (w' : Moment)
    (h : signalledAt reply response w op = some (answer, w')) : starting w op answer w' := by
  cases op with
  | inl op =>
    cases op with
    | isFile file =>
      obtain ⟨rfl, rfl⟩ := Prod.mk.inj (Option.some.inj h)
      cases file with
      | record => exact ⟨fun h => h, rfl⟩
      | _ => exact ⟨fun h => h, trivial⟩
    | secureWrite file contents mode =>
      cases file <;> (obtain ⟨rfl, rfl⟩ := Prod.mk.inj (Option.some.inj h)) <;>
        exact ⟨fun h => h, trivial⟩
    | _ =>
      obtain ⟨rfl, rfl⟩ := Prod.mk.inj (Option.some.inj h)
      first
        | exact ⟨fun h => h, trivial⟩
        | exact ⟨fun _ => rfl, trivial⟩
        | exact ⟨fun h => h, rfl⟩
        | exact ⟨fun h => h, sampleToken, rfl, sampleToken_valid⟩
        | exact ⟨fun h => h, fun h => h, fun h => h⟩
  | inr op =>
    cases op <;> (obtain ⟨rfl, rfl⟩ := Prod.mk.inj (Option.some.inj h))
    · exact ⟨fun h => h, rfl, rfl⟩
    · exact ⟨fun h => h, rfl, rfl⟩
    · exact ⟨fun h => h, rfl, trivial⟩
    · exact ⟨fun h => h, rfl, fun h => h, fun h => h⟩
    · exact ⟨fun h => h, rfl, trivial⟩

def sampleStart (reply : HttpResponse) (response : Option EnrollmentResponse) :
    List (StartEvent Moment) × Option (Except Error Unit) × Moment :=
  play (signalledAt reply response) (run samplePlatform ⟨sampleUrl, none⟩ 1).run ⟨false, false⟩

instance (e : EnrollEvent Moment) : Decidable (Unhindered e) := by
  unfold Unhindered
  split <;> infer_instance

instance (trace : List (StartEvent Moment)) : Decidable (RequestedDuringEnrollment trace) :=
  inferInstanceAs (Decidable (∃ e ∈ enrollEvents trace, e.after.requested = true))

/-- The server refuses, and the check behind the refusal sees the request. -/
def sampleRefused : List (StartEvent Moment) × Option (Except Error Unit) × Moment :=
  sampleStart ⟨503, []⟩ none

/-- The server accepts, and nobody asks for the flag before the machine is enrolled. -/
def sampleAccepted : List (StartEvent Moment) × Option (Except Error Unit) × Moment :=
  sampleStart ⟨200, sampleResponseBody⟩ (some sampleResponse)

theorem sampleStart_exec (reply : HttpResponse) (response : Option EnrollmentResponse) :
    Exec starting (run samplePlatform ⟨sampleUrl, none⟩ 1).run ⟨false, false⟩
      (sampleStart reply response).1 (sampleStart reply response).2.1
      (sampleStart reply response).2.2 :=
  exec_play (signalledAt_starting reply response) _ _

theorem sampleRefused_result : sampleRefused.2.1 = some (.error .enrollmentRejected) ∧
    RequestedDuringEnrollment sampleRefused.1 := by
  decide +kernel

theorem sampleAccepted_result : sampleAccepted.2.1 = some (.ok ()) ∧
    RequestedDuringEnrollment sampleAccepted.1 ∧
    ∀ e ∈ enrollEvents sampleAccepted.1, Unhindered e := by
  decide +kernel

theorem exits_cleanly_iff_accepted : sampleAccepted.2.1 = some (.ok ()) ∧
    ExitsCleanly (.ok ()) sampleAccepted.1 := by
  obtain ⟨hresult, hrequested, hclear⟩ := sampleAccepted_result
  have hexec := sampleStart_exec ⟨200, sampleResponseBody⟩ (some sampleResponse)
  rw [show (sampleStart ⟨200, sampleResponseBody⟩ (some sampleResponse)).2.1 = some (.ok ()) from
    hresult] at hexec
  exact ⟨hresult, ((exits_cleanly_iff rfl).2 _ _ _ hexec hrequested).mpr hclear⟩

/-- A shutdown that is requested while the server refuses makes the daemon fail. -/
theorem refused_uncleanly : ¬ ∀ (p : Platform) (config : Config) (fuel : Nat) (w w' : Moment)
    (trace : List (StartEvent Moment)) (result : Except Error Unit),
    Exec starting (run p config fuel).run w trace (some result) w' → w.enrolled = false →
    RequestedDuringEnrollment trace → ExitsCleanly result trace := by
  intro h
  obtain ⟨hresult, hrequested⟩ := sampleRefused_result
  have hexec := sampleStart_exec ⟨503, []⟩ none
  rw [show (sampleStart ⟨503, []⟩ none).2.1 = some (.error .enrollmentRejected) from
    hresult] at hexec
  exact nomatch (h _ _ _ _ _ _ _ hexec rfl hrequested).1

end MayflyAgent.CleanExits
