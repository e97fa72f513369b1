import MayflyAgent.Attempts
import MayflyAgent.Boots

/-!
Where the key that `ensure_enrolled` pins comes from. The client keeps every response that it can
parse, before anybody validates it, and the pin is taken from what it kept last. An attempt whose
response is refused therefore leaves that response behind, and if another process then enrolls the
machine, the next attempt ends well without a response of its own.
-/
namespace MayflyAgent.PinProvenance

open RustText Programs Contracts Budgets Checks Errors Bundles BundleValidation StateFiles
open CaSync (HttpResponse isSuccess modePublic)
open Enrollment EnrollmentRuns Attempts

variable {p : Platform} {α β : Type}

/-- Only the cell belongs to the process. The files may be changed by others at any time, and every
other answer is arbitrary. -/
def cellKept : Environment enrollSignature Machine := fun m op answer m' =>
  match op, answer with
  | .connect, _ => m'.lastResponse = none
  | .setLastResponse response, _ => m'.lastResponse = some response
  | .lastResponse, answer => answer = m.lastResponse ∧ m'.lastResponse = m.lastResponse
  | _, _ => m'.lastResponse = m.lastResponse

/-- The response that the client hands out for the pin. -/
def handed : EnrollEvent Machine → Option (Option EnrollmentResponse)
  | ⟨_, .lastResponse, answer, _⟩ => some answer
  | _ => none

def handedOut (past : List (EnrollEvent Machine)) : Option EnrollmentResponse :=
  (past.reverse.findSome? handed).join

/-- A pin that is written is the key of the response that the client handed out, and both that key
and that response pass their validation. -/
def PinValidated (p : Platform) (past : List (EnrollEvent Machine)) (e : EnrollEvent Machine) :
    Prop :=
  ∀ file contents mode, e.op = .writeState file contents mode → ∃ response key,
    handedOut past = some response ∧ response.bundleSigningKey = some key ∧
      contents = storedLine (trimText key) ∧
      validateEd25519PublicKey p.toCrypto key = .ok () ∧
      validateResponse p.toCrypto response = .ok ()

/-- The last response that the server sent before a pin is written passes its validation. -/
def LastValid (p : Platform) (past : List (EnrollEvent Machine)) (e : EnrollEvent Machine) : Prop :=
  ∀ file contents mode response, e.op = .writeState file contents mode →
    lastReceived p past = some response → validateResponse p.toCrypto response = .ok ()

/-- The machine record was loaded, which an attempt does for a record that was there before. -/
def Loaded (past : List (EnrollEvent Machine)) : Prop := ∃ e ∈ past, e.op = .read .record

def Validated (p : Platform) (past : List (EnrollEvent Machine)) : Prop :=
  ∃ response, lastReceived p past = some response ∧ validateResponse p.toCrypto response = .ok ()

/-- What is known of a pin that is written. -/
structure Taken (p : Platform) (past : List (EnrollEvent Machine)) (contents : Bytes)
    (response : EnrollmentResponse) (key : Text) : Prop where
  handed : handedOut past = some response
  received : lastReceived p past = some response
  carried : response.bundleSigningKey = some key
  written : contents = storedLine (trimText key)
  valid : Loaded past ∨ Validated p past

def Pinned (p : Platform) (past : List (EnrollEvent Machine)) (e : EnrollEvent Machine) : Prop :=
  ∀ file contents mode, e.op = .writeState file contents mode →
    ∃ response key, Taken p past contents response key

/-- The cell holds the last response. -/
def Holds (p : Platform) (cell : Option EnrollmentResponse) (past : List (EnrollEvent Machine))
    (m : Machine) : Prop := m.lastResponse = cell ∧ lastReceived p past = cell

def Synced (p : Platform) (past : List (EnrollEvent Machine)) (m : Machine) : Prop :=
  ∃ cell, Holds p cell past m

def Failed (p : Platform) (_ : Error) : Condition enrollSignature Machine := Synced p

theorem handedOut_append (past : List (EnrollEvent Machine)) (e : EnrollEvent Machine) :
    handedOut (past ++ [e]) = ((handed e).getD (handedOut past)) := by
  rw [handedOut, List.reverse_concat, List.findSome?_cons]
  cases handed e <;> rfl

theorem loaded_append {past : List (EnrollEvent Machine)} {e : EnrollEvent Machine} :
    Loaded (past ++ [e]) ↔ Loaded past ∨ e.op = .read .record := by
  simp [Loaded, or_and_right, exists_or]

/-- A call that is neither a request nor changes the cell. -/
def LeavesCell : EnrollOp → Prop
  | .connect | .postJson _ _ | .setLastResponse _ => False
  | _ => True

theorem Holds.kept {cell : Option EnrollmentResponse} {past : List (EnrollEvent Machine)}
    {m m' : Machine} {op : EnrollOp} {answer : op.Answer} (h : Holds p cell past m)
    (hop : LeavesCell op) (henv : cellKept m op answer m') :
    Holds p cell (past ++ [⟨m, op, answer, m'⟩]) m' := by
  rw [Holds, lastReceived_append]
  cases op with
  | connect => exact hop.elim
  | postJson url body => exact hop.elim
  | setLastResponse response => exact hop.elim
  | lastResponse => exact ⟨henv.2.trans h.1, h.2⟩
  | _ => exact ⟨henv.trans h.1, h.2⟩

theorem Synced.kept {past : List (EnrollEvent Machine)} {m m' : Machine} {op : EnrollOp}
    {answer : op.Answer} (h : Synced p past m) (hop : LeavesCell op)
    (henv : cellKept m op answer m') : Synced p (past ++ [⟨m, op, answer, m'⟩]) m' := by
  obtain ⟨cell, hcell⟩ := h
  exact ⟨cell, hcell.kept hop henv⟩

theorem leavesCell_of_onDisk {op : EnrollOp} (h : OnDisk op) : LeavesCell op := by
  cases op <;> trivial

abbrev Steps (p : Platform) (P : Condition enrollSignature Machine) (x : EnrollAction α)
    (Q : α → Condition enrollSignature Machine) : Prop :=
  Meets cellKept (Pinned p) P x.run (Returns (Failed p) Q)

/-- What is known of the past and the cell is kept by the calls on disk. -/
theorem disk_meets {x : EnrollAction α} (hx : EndsCalling OnDisk x.run)
    (cell : Option EnrollmentResponse) : Meets cellKept (Pinned p) (Holds p cell) x.run
      (Returns (fun _ => Holds p cell) fun _ => Holds p cell) := by
  refine meets_keeps_action hx.calls fun past m op answer m' hop hcell henv =>
    ⟨fun file contents mode heq => ?_, hcell.kept (leavesCell_of_onDisk hop) henv⟩
  cases heq
  exact hop.elim

theorem disk_steps {x : EnrollAction α} (hx : EndsCalling OnDisk x.run)
    (cell : Option EnrollmentResponse) : Steps p (Holds p cell) x fun _ => Holds p cell :=
  (disk_meets hx cell).post fun r past m h => by
    cases r with
    | ok a => exact h
    | error e => exact ⟨cell, h⟩

theorem check_steps {P : Condition enrollSignature Machine} {r : Except Error α}
    {f : α → EnrollAction β} {Q : β → Condition enrollSignature Machine}
    (hP : ∀ past m, P past m → Synced p past m)
    (hf : ∀ a, r = .ok a → Steps p P (f a) Q) : Steps p P (Action.ofExcept r >>= f) Q :=
  meets_ofExcept_bind (fun past m _ h _ => hP past m h) hf

theorem last_check_steps {P : Condition enrollSignature Machine} {r : Except Error α}
    (hP : ∀ past m, P past m → Synced p past m) : Steps p P (Action.ofExcept r) fun _ => P := by
  cases r with
  | ok a => exact meets_pure fun _ _ h => h
  | error e => exact meets_throw hP

theorem holds_synced {cell : Option EnrollmentResponse} (past : List (EnrollEvent Machine))
    (m : Machine) (h : Holds p cell past m) : Synced p past m := ⟨cell, h⟩

theorem ask_steps {P : Condition enrollSignature Machine} (op : EnrollOp)
    {M : op.Answer → Condition enrollSignature Machine}
    (hop : ∀ file contents mode, op ≠ .writeState file contents mode)
    (h : ∀ past m answer m', P past m → cellKept m op answer m' →
      M answer (past ++ [⟨m, op, answer, m'⟩]) m') : Steps p P (ask op) M :=
  meets_perform fun past m answer m' hP henv =>
    ⟨fun file contents mode heq => absurd heq (hop file contents mode), h past m answer m' hP henv⟩

/-- The response in the answer to a request. -/
def responseIn (p : Platform) : Except Error HttpResponse → Option EnrollmentResponse
  | .ok response => if isSuccess response.status then p.responseFromJson response.body else none
  | .error _ => none

theorem received_post {m m' : Machine} {url : Text} {body : Bytes}
    (answer : Except Error HttpResponse) :
    received p ⟨m, .postJson url body, answer, m'⟩ = responseIn p answer := by
  cases answer with
  | ok response => rfl
  | error err => rfl

/-- A response is kept just as it was received. -/
theorem clientEnroll_steps (serverUrl : Text) (request : EnrollmentRequest)
    (cell : Option EnrollmentResponse) : Steps p (Holds p cell) (clientEnroll p serverUrl request)
      fun response => Holds p (some response) := by
  refine check_steps holds_synced fun body _ => ?_
  refine Meets.andThen (ask_steps (.postJson _ body)
    (M := fun (answer : Except Error HttpResponse) past m =>
      m.lastResponse = cell ∧ lastReceived p past = (responseIn p answer).or cell)
    (fun _ _ _ h => by cases h) ?_) fun (answer : Except Error HttpResponse) => ?_
  · intro past m answer m' hcell henv
    refine ⟨henv.trans hcell.1, ?_⟩
    rw [lastReceived_append, hcell.2]
    exact congrArg (·.or cell) (received_post answer)
  have hunread : responseIn p answer = none → ∀ past (m : Machine), m.lastResponse = cell ∧
      lastReceived p past = (responseIn p answer).or cell → Synced p past m := by
    intro hnone past m h
    rw [hnone] at h
    exact ⟨cell, h⟩
  cases answer with
  | error err => exact meets_throw (hunread rfl)
  | ok response =>
    rw [ofExcept_ok_bind]
    refine meets_ofExcept_bind (fun past m err h herror => ?_) fun _ hsuccess => ?_
    · have hrefused : isSuccess response.status = false := by
        by_contra hsuccess
        rw [rejectIf, if_neg hsuccess] at herror
        cases herror
      exact hunread (if_neg (Bool.eq_false_iff.mp hrefused)) past m h
    have hsuccess : isSuccess response.status = true :=
      Bool.not_eq_false _ ▸ rejectIf_eq_ok.mp hsuccess
    have hresponse : responseIn p (.ok response) = p.responseFromJson response.body :=
      if_pos hsuccess
    rw [hresponse] at hunread ⊢
    cases hparsed : p.responseFromJson response.body with
    | none => exact meets_throw (hparsed ▸ hunread hparsed)
    | some parsed =>
      rw [okOr, ofExcept_ok_bind]
      refine Meets.andThen (ask_steps (.setLastResponse parsed)
        (M := fun _ => Holds p (some parsed)) (fun _ _ _ h => by cases h) ?_)
        fun _ => meets_pure fun _ _ h => h
      intro past m answer m' h henv
      refine ⟨henv, ?_⟩
      rw [lastReceived_append, h.2]
      rfl

theorem persistMachineIdentity_steps (serverUrl hostname : Text) (keypair : MachineKeypair)
    (response : EnrollmentResponse) :
    Steps p (Holds p (some response)) (persistMachineIdentity p serverUrl hostname keypair response)
      fun _ past m => Synced p past m ∧ Validated p past := by
  refine check_steps holds_synced fun _ _ => check_steps holds_synced fun _ _ => ?_
  refine check_steps holds_synced fun _ hvalid => check_steps holds_synced fun publicKey _ => ?_
  refine Meets.andThen (disk_steps (x := ask .now) ⟨trivial, fun _ => trivial⟩ (some response))
    fun now => ?_
  refine Meets.andThen (disk_steps (ends_check fun _ => ends_secureWrite _ _ _) (some response))
    fun _ => meets_pure fun past m h => ⟨⟨_, h⟩, response, h.2, hvalid⟩

theorem enroll_steps (serverUrl token hostname : Text) (cell : Option EnrollmentResponse) :
    Steps p (Holds p cell) (enroll p serverUrl token hostname)
      fun _ past m => Synced p past m ∧ Validated p past := by
  refine Meets.andThen (disk_steps (x := isEnrolled) ⟨trivial, fun _ => trivial⟩ cell)
    fun found => ?_
  split
  · exact meets_throw holds_synced
  refine check_steps holds_synced fun _ _ => check_steps holds_synced fun _ _ => ?_
  refine check_steps holds_synced fun _ _ => ?_
  refine Meets.andThen (disk_steps ends_loadOrGenerateKeypair cell) fun keypair => ?_
  refine check_steps holds_synced fun request _ => ?_
  exact Meets.andThen (clientEnroll_steps serverUrl request cell)
    fun response => persistMachineIdentity_steps serverUrl hostname keypair response

theorem loadMachineIdentity_steps (cell : Option EnrollmentResponse) :
    Steps p (Holds p cell) (loadMachineIdentity p)
      fun _ past m => Synced p past m ∧ Loaded past := by
  have hsynced : ∀ past m, Synced p past m ∧ Loaded past → Synced p past m := fun _ _ h => h.1
  have hread : Steps p (Holds p cell) (readOrFail .record)
      fun _ past m => Synced p past m ∧ Loaded past := by
    refine Meets.andThen (ask_steps (.read .record)
      (M := fun _ past m => Synced p past m ∧ Loaded past) nofun ?_)
      fun _ => last_check_steps hsynced
    exact fun past m answer m' h henv =>
      ⟨⟨cell, h.kept trivial henv⟩, loaded_append.mpr (Or.inr rfl)⟩
  refine Meets.andThen (disk_steps ends_readKeypair cell) fun keypair => ?_
  refine check_steps holds_synced fun publicKey _ => ?_
  refine Meets.andThen (Meets.andThen hread fun _ => last_check_steps hsynced) fun record => ?_
  exact last_check_steps hsynced

/-- An attempt ends well with a response that passes its validation, or for a record it finds. -/
theorem attemptEnrollment_steps (config : Config) (token hostname : Text) :
    Steps p (Synced p) (attemptEnrollment p config token hostname)
      fun _ past m => Synced p past m ∧ (Loaded past ∨ Validated p past) := by
  refine meets_exists fun cell => ?_
  refine Meets.andThen (enroll_steps config.serverUrl token hostname cell).attempt fun outcome => ?_
  have hload : Steps p (Synced p) (loadMachineIdentity p)
      fun _ past m => Synced p past m ∧ (Loaded past ∨ Validated p past) := by
    refine meets_exists fun cell => (loadMachineIdentity_steps cell).post fun r past m h => ?_
    cases r with
    | ok identity => exact ⟨h.1, Or.inl h.2⟩
    | error err => exact h
  split
  · exact meets_pure fun _ _ h => ⟨h.1, Or.inr h.2⟩
  · exact hload
  · exact meets_throw fun _ _ h => h

theorem retryWithBackoff_steps {op : EnrollAction α} {Q : α → Condition enrollSignature Machine}
    (hop : Steps p (Synced p) op Q) (fuel : Nat) : ∀ (attempt : UInt32) (lastErr : Option Error),
    Steps p (Synced p) (retryWithBackoff op attempt lastErr fuel) Q := by
  have hask : ∀ op : EnrollOp, LeavesCell op →
      (∀ file contents mode, op ≠ .writeState file contents mode) →
      Steps p (Synced p) (ask op) fun _ => Synced p :=
    fun op hcell hop => ask_steps op hop fun _ _ _ _ h henv => h.kept hcell henv
  induction fuel with
  | zero => exact fun _ _ => meets_running
  | succ fuel ih =>
    intro attempt lastErr
    refine Meets.andThen (hask .shutdownRequested trivial nofun) fun (requested : Bool) => ?_
    cases requested with
    | true => exact meets_throw fun _ _ h => h
    | false =>
      refine Meets.andThen hop.attempt fun outcome => ?_
      cases outcome with
      | ok value => exact meets_pure fun _ _ h => h
      | error err =>
        refine Meets.andThen (hask .shutdownRequested trivial nofun) fun (requested : Bool) => ?_
        cases requested with
        | true => exact meets_throw fun _ _ h => h
        | false => exact Meets.andThen (hask (.sleep _) trivial nofun) fun _ => ih _ _

/-- What is known once the client has handed out a response. -/
structure HandedOut (p : Platform) (answer : Option EnrollmentResponse)
    (past : List (EnrollEvent Machine)) (m : Machine) : Prop where
  synced : Synced p past m
  received : lastReceived p past = answer
  handed : handedOut past = answer
  valid : Loaded past ∨ Validated p past

theorem lastResponse_steps : Steps p
    (fun past m => Synced p past m ∧ (Loaded past ∨ Validated p past)) (ask .lastResponse)
    (HandedOut p) := by
  refine ask_steps .lastResponse nofun fun past m answer m' h henv => ?_
  obtain ⟨⟨cell, hcell⟩, hvalid⟩ := h
  have hreceived : lastReceived p (past ++ [⟨m, .lastResponse, answer, m'⟩]) =
      lastReceived p past := lastReceived_append p past _
  refine ⟨⟨cell, hcell.kept trivial henv⟩, ?_, handedOut_append past _, ?_⟩
  · exact (hreceived.trans hcell.2).trans (hcell.1.symm.trans henv.1.symm)
  · rw [loaded_append, Validated, hreceived]
    exact hvalid.imp Or.inl id

theorem HandedOut.kept {answer : Option EnrollmentResponse} {past : List (EnrollEvent Machine)}
    {m m' : Machine} {file : StateFile} {contents : Except ReadError Bytes}
    (h : HandedOut p answer past m) (henv : cellKept m (.readState file) contents m') :
    HandedOut p answer (past ++ [⟨m, .readState file, contents, m'⟩]) m' := by
  have hreceived : lastReceived p (past ++ [⟨m, .readState file, contents, m'⟩]) =
      lastReceived p past := lastReceived_append p past _
  have hhanded : handedOut (past ++ [⟨m, .readState file, contents, m'⟩]) = handedOut past :=
    handedOut_append past _
  refine ⟨h.synced.kept trivial henv, hreceived.trans h.received, hhanded.trans h.handed, ?_⟩
  rw [loaded_append, Validated, hreceived]
  exact h.valid.imp Or.inl id

theorem pinBundleSigningKey_steps (config : Config) (response : EnrollmentResponse) :
    Steps p (HandedOut p (some response)) (pinBundleSigningKey config response.bundleSigningKey)
      fun _ => Synced p := by
  have hsynced : ∀ past m, HandedOut p (some response) past m → Synced p past m :=
    fun _ _ h => h.synced
  unfold pinBundleSigningKey
  split
  · exact meets_pure hsynced
  split
  · exact meets_pure hsynced
  rename_i key hkey
  refine Meets.andThen (ask_steps (.readState .signingKey)
    (M := fun _ => HandedOut p (some response)) nofun fun _ _ _ _ h henv => h.kept henv)
    fun answer => ?_
  refine check_steps hsynced fun existing _ => ?_
  split
  · exact meets_pure hsynced
  refine Meets.andThen (meets_perform (M := fun _ => Synced p) ?_) fun answer => ?_
  · intro past m answer m' h henv
    refine ⟨fun file contents mode heq => ?_, h.synced.kept trivial henv⟩
    cases heq
    exact ⟨response, key, h.handed, h.received, hkey, rfl, h.valid⟩
  exact check_steps (fun _ _ h => h) fun _ _ => meets_pure fun _ _ h => h

theorem Steps.anyhow {P : Condition enrollSignature Machine} {x : EnrollAction α}
    {Q : α → Condition enrollSignature Machine} (h : Steps p P x Q) :
    Meets cellKept (Pinned p) P x.run (Returns (fun _ _ _ => True) Q) := by
  refine h.post fun r past m hr => ?_
  cases r with
  | ok a => exact hr
  | error e => trivial

/-- What the client kept before it was made does not matter. -/
theorem ensureEnrolled_pinned (config : Config) (hostname : Text) (fuel : Nat) :
    Meets cellKept (Pinned p) (fun past _ => lastReceived p past = none)
      (ensureEnrolled p config hostname fuel).run
      (Returns (fun _ _ _ => True) fun _ _ _ => True) := by
  have hask : ∀ op : EnrollOp, (∀ file contents mode, op ≠ .writeState file contents mode) →
      (∀ m answer m', received p ⟨m, op, answer, m'⟩ = none) →
      Meets cellKept (Pinned p) (fun past _ => lastReceived p past = none) (ask op).run
        (Returns (fun _ _ _ => True) fun _ past _ => lastReceived p past = none) :=
    fun op hop hnone => (ask_steps op hop fun past m answer m' hpast _ => by
      rw [lastReceived_append, hnone, hpast]
      rfl).anyhow
  refine Meets.andThen (hask (.isFile .record) nofun fun _ _ _ => rfl) fun (found : Bool) => ?_
  cases found with
  | true =>
    refine (meets_keeps_action (P := fun _ _ => True) ends_loadMachineIdentity.calls
      fun past m op answer m' hop _ _ => ⟨fun file contents mode heq => ?_, trivial⟩).pre
      fun _ _ _ => trivial
    cases heq
    exact hop.elim
  | false =>
    refine Meets.andThen (hask .enrollmentToken nofun fun _ _ _ => rfl) fun token => ?_
    refine meets_ofExcept_bind (fun _ _ _ _ _ => trivial) fun token _ => ?_
    refine meets_ofExcept_bind (fun _ _ _ _ _ => trivial) fun _ _ => ?_
    have hconnect : Steps p (fun past _ => lastReceived p past = none) (ask .connect)
        fun _ => Synced p :=
      ask_steps .connect nofun fun past m answer m' hpast henv =>
        ⟨none, henv, (lastReceived_append p past _).trans hpast⟩
    refine Meets.andThen hconnect.anyhow fun client => ?_
    refine meets_ofExcept_bind (fun _ _ _ _ _ => trivial) fun _ _ => ?_
    refine Meets.andThen (retryWithBackoff_steps (attemptEnrollment_steps config token hostname)
      fuel 0 none).anyhow fun identity => ?_
    refine Meets.andThen lastResponse_steps.anyhow fun (answer : Option EnrollmentResponse) => ?_
    cases answer with
    | none => exact meets_pure fun _ _ _ => trivial
    | some response =>
      exact Meets.andThen (pinBundleSigningKey_steps config response).anyhow
        fun _ => meets_pure fun _ _ _ => trivial

theorem run_pinned {config : Config} {hostname : Text} {fuel : Nat} {m m' : Machine}
    {trace : List (EnrollEvent Machine)} {result : Option (Except Error MachineIdentity)}
    (h : Exec cellKept (ensureEnrolled p config hostname fuel).run m trace result m') :
    Throughout (Pinned p) [] trace :=
  (ensureEnrolled_pinned config hostname fuel [] m trace result m' rfl h).1

/-- A pin that is written is validated if and only if the last response before it is. -/
theorem Pinned.validated_iff {past : List (EnrollEvent Machine)} {e : EnrollEvent Machine}
    (h : Pinned p past e) : PinValidated p past e ↔ LastValid p past e := by
  constructor
  · intro hvalidated file contents mode response hop hlast
    obtain ⟨last, key, htaken⟩ := h file contents mode hop
    obtain ⟨pinned, _, hhanded, _, _, _, hvalid⟩ := hvalidated file contents mode hop
    obtain rfl := Option.some.inj (htaken.received.symm.trans hlast)
    obtain rfl := Option.some.inj (htaken.handed.symm.trans hhanded)
    exact hvalid
  · intro hlast file contents mode hop
    obtain ⟨response, key, htaken⟩ := h file contents mode hop
    have hvalid := hlast file contents mode response hop htaken.received
    exact ⟨response, key, htaken.handed, htaken.carried, htaken.written,
      Boots.validateResponse_key hvalid htaken.carried, hvalid⟩

/-- Where no record was loaded, the last response is the one that enrolled the machine. -/
theorem Pinned.of_unloaded {past : List (EnrollEvent Machine)} {e : EnrollEvent Machine}
    (h : Pinned p past e) (hloaded : ¬ Loaded past) : PinValidated p past e := by
  refine h.validated_iff.mpr fun file contents mode response hop hlast => ?_
  obtain ⟨last, key, htaken⟩ := h file contents mode hop
  rcases htaken.valid with hpast | ⟨validated, hreceived, hvalid⟩
  · exact absurd hpast hloaded
  · obtain rfl := Option.some.inj (hreceived.symm.trans hlast)
    exact hvalid

/-- Whoever else writes to the disk meanwhile, the keys that `ensure_enrolled` pins are validated
with their responses just where the last response in front of a pin is. This is so where the daemon
never loads a record, which it does for one that another process wrote. -/
theorem pins_validated_iff {config : Config} {hostname : Text} {fuel : Nat} {m m' : Machine}
    {trace : List (EnrollEvent Machine)} {result : Option (Except Error MachineIdentity)}
    (hexec : Exec cellKept (ensureEnrolled p config hostname fuel).run m trace result m') :
    (Throughout (PinValidated p) [] trace ↔ Throughout (LastValid p) [] trace) ∧
      ((∀ e ∈ trace, e.op ≠ .read .record) → Throughout (PinValidated p) [] trace) := by
  have hpinned := throughout_iff.mp (run_pinned hexec)
  refine ⟨?_, fun hunloaded => throughout_iff.mpr fun first e rest htrace => ?_⟩
  · rw [throughout_iff, throughout_iff]
    exact forall₄_congr fun first e rest htrace => (hpinned first e rest htrace).validated_iff
  · refine (hpinned first e rest htrace).of_unloaded ?_
    rintro ⟨x, hx, hload⟩
    refine hunloaded x ?_ hload
    rw [htrace]
    exact List.mem_append_left _ hx

theorem cellKept_of_enrolling {m m' : Machine} {op : EnrollOp} {answer : op.Answer}
    (h : enrolling m op answer m') : cellKept m op answer m' := by
  by_cases hop : IsQuiet op
  · obtain rfl := enrolling_quiet h hop
    cases op <;> first | exact rfl | exact hop.elim | exact ⟨h.1, rfl⟩
  cases op with
  | secureWrite file contents mode =>
    rcases h with ⟨_, rfl⟩ | ⟨_, rfl | rfl⟩ <;> exact rfl
  | writeState file contents mode =>
    rcases h with ⟨_, rfl⟩ | ⟨_, rfl | rfl⟩ <;> exact rfl
  | connect => exact congrArg Machine.lastResponse h
  | setLastResponse response => exact congrArg Machine.lastResponse h
  | postJson url body => exact congrArg Machine.lastResponse h.2
  | _ => exact absurd trivial hop

theorem script_exec (s : Script) (x : EnrollAction α) (m : Machine) :
    Exec cellKept x.run m (play s.answer x.run m).1 (play s.answer x.run m).2.1
      (play s.answer x.run m).2.2 :=
  exec_play (fun _ _ _ _ h => cellKept_of_enrolling (script_enrolling s _ _ _ _ h)) x.run m

theorem sampleBooted_unloaded : ∀ e ∈ Boots.sampleBooted.1, e.op ≠ .read .record := by
  decide +kernel

theorem pins_validated_iff_undisturbed : Boots.sampleBooted.1.any Boots.writesPin = true ∧
    Throughout (PinValidated samplePlatform) [] Boots.sampleBooted.1 := by
  have hexec := script_exec ⟨Boots.accepting, fun _ => false⟩
    (ensureEnrolled samplePlatform Boots.sampleConfig sampleHost 1) emptyMachine
  exact ⟨Boots.sampleBooted_machine.2.1, (pins_validated_iff hexec).2 sampleBooted_unloaded⟩

/-- A key that no signature verifies against. -/
def corruptResponse : EnrollmentResponse :=
  { sampleResponse with bundleSigningKey := some (text "corrupt") }

def corruptBody : Bytes :=
  encodeUtf8 (text "\x7b\"machine_id\":\"machine-01\",\"heartbeat_interval\":60," ++
    text "\"sync_interval\":300,\"server_identity\":\"" ++
    BundleValidation.golden.signingKey ++ text "\",\"bundle_signing_key\":\"corrupt\"\x7d")

def corruptPlatform : Platform :=
  { samplePlatform with
    responseFromJson := fun body => if body = corruptBody then some corruptResponse else none }

def corruptAttempt : EnrollAction MachineIdentity :=
  attemptEnrollment corruptPlatform Boots.sampleConfig sampleToken sampleHost

/-- The server sends the corrupt key, and the attempt refuses it. -/
def sampleCorrupted :
    List (EnrollEvent Machine) × Option (Except Error MachineIdentity) × Machine :=
  play (Script.answer ⟨⟨200, corruptBody⟩, fun _ => false⟩) corruptAttempt.run emptyMachine

theorem sampleCorrupted_machine :
    sampleCorrupted.2.1 = some (.error (.invalidServerResponse .invalidBundleSigningKey)) ∧
    sampleCorrupted.2.2.lastResponse = some corruptResponse ∧
    sampleCorrupted.2.2.identity .privateKey = some (encodeUtf8 samplePem) ∧
    sampleCorrupted.2.2.dir .signingKey = .missing := by
  decide +kernel

/-- The machine that another process enrolled behind the first attempt. -/
def overtaken : Machine := sampleCorrupted.2.2.install .record Boots.sampleRecordBytes

theorem overtaken_machine : overtaken.lastResponse = some corruptResponse ∧
    overtaken.identity .privateKey = some (encodeUtf8 samplePem) ∧
    overtaken.identity .record = some Boots.sampleRecordBytes ∧
    overtaken.dir .signingKey = .missing := by
  obtain ⟨_, hcell, hkey, hpin⟩ := sampleCorrupted_machine
  exact ⟨hcell, hkey, rfl, hpin⟩

/-- Loading a record reads no response. -/
theorem loadMachineIdentity_with (p : Platform) (f : Bytes → Option EnrollmentResponse) :
    loadMachineIdentity { p with responseFromJson := f } = loadMachineIdentity p := rfl

/-- The second attempt finds the record. -/
theorem second_attempt {m : Machine} (hkey : m.identity .privateKey = some (encodeUtf8 samplePem))
    (hrecord : m.identity .record = some Boots.sampleRecordBytes) :
    ∃ trace, Exec cellKept corruptAttempt.run m trace (some (.ok Boots.sampleIdentity)) m := by
  have hfile : (Script.answer ⟨Boots.accepting, fun _ => false⟩) m (.isFile .record) =
      some (true, m) := by
    simp only [Script.answer, reachable, hrecord]
    rfl
  have hfound : outcome (Script.answer ⟨Boots.accepting, fun _ => false⟩) isEnrolled.run m =
      (some (.ok true), m) := outcome_call hfile
  have hrefused : outcome (Script.answer ⟨Boots.accepting, fun _ => false⟩)
      (enroll corruptPlatform sampleUrl sampleToken sampleHost).run m =
      (some (.error .alreadyEnrolled), m) := outcome_action_ok _ hfound
  have henroll : outcome (Script.answer ⟨Boots.accepting, fun _ => false⟩)
      (enroll corruptPlatform sampleUrl sampleToken sampleHost).attempt.run m =
      (some (.ok (.error .alreadyEnrolled)), m) := outcome_bind _ hrefused
  have hsame : loadMachineIdentity corruptPlatform = loadMachineIdentity samplePlatform :=
    loadMachineIdentity_with samplePlatform _
  have hload : outcome (Script.answer ⟨Boots.accepting, fun _ => false⟩)
      (loadMachineIdentity corruptPlatform).run m =
      (some (.ok Boots.sampleIdentity), m) := by
    rw [hsame]
    exact Boots.sample_loadMachineIdentity hkey hrecord
  have hattempt : outcome (Script.answer ⟨Boots.accepting, fun _ => false⟩) corruptAttempt.run
      m = (some (.ok Boots.sampleIdentity), m) :=
    (outcome_action_ok _ henroll).trans hload
  have hexec := script_exec ⟨Boots.accepting, fun _ => false⟩ corruptAttempt m
  rw [outcome] at hattempt
  rw [hattempt] at hexec
  exact ⟨_, hexec⟩

theorem first_attempt : ∃ trace, Exec cellKept corruptAttempt.run emptyMachine trace
    (some (.error (.invalidServerResponse .invalidBundleSigningKey))) sampleCorrupted.2.2 := by
  have hexec := script_exec ⟨⟨200, corruptBody⟩, fun _ => false⟩ corruptAttempt emptyMachine
  have hresult := sampleCorrupted_machine.1
  rw [sampleCorrupted] at hresult
  rw [hresult] at hexec
  exact ⟨_, hexec⟩

section Compositions

variable {m m₁ m' : Machine} {trace : List (EnrollEvent Machine)}

theorem exec_ask_bind (op : EnrollOp) (answer : op.Answer) {f : op.Answer → EnrollAction β}
    {result : Option (Except Error β)} (henv : cellKept m op answer m₁)
    (h : Exec cellKept (f answer).run m₁ trace result m') :
    Exec cellKept (ask op >>= f).run m (⟨m, op, answer, m₁⟩ :: trace) result m' :=
  Exec.step henv h

theorem exec_attempt_of {x : EnrollAction α} {r : Except Error α}
    (h : Exec cellKept x.run m trace (some r) m') :
    Exec cellKept x.attempt.run m trace (some (.ok r)) m' := by
  have hdone : Exec cellKept (x.run >>= fun r => Program.done (Except.ok r)) m (trace ++ [])
      (some (.ok r : Except Error (Except Error α))) m' := h.bind (Exec.finished _ m')
  rwa [List.append_nil] at hdone

end Compositions

/-- While the process waits, the other one enrolls. -/
theorem overtaken_loop : ∃ trace, Exec cellKept (retryWithBackoff corruptAttempt 0 none 2).run
    emptyMachine trace (some (.ok Boots.sampleIdentity)) overtaken := by
  obtain ⟨first, hfirst⟩ := first_attempt
  obtain ⟨_, hkey, hrecord, _⟩ := overtaken_machine
  obtain ⟨second, hsecond⟩ := second_attempt hkey hrecord
  have hround : Exec cellKept (retryWithBackoff corruptAttempt 1
      (some (.invalidServerResponse .invalidBundleSigningKey)) 1).run overtaken
      (⟨overtaken, .shutdownRequested, (false : Bool), overtaken⟩ :: (second ++ []))
      (some (.ok Boots.sampleIdentity)) overtaken := by
    rw [retryWithBackoff_succ]
    exact exec_ask_bind .shutdownRequested false rfl
      ((exec_attempt_of hsecond).action_bind (Exec.finished _ _))
  have hwait : Exec cellKept (retryBehindFailure corruptAttempt 1
      (.invalidServerResponse .invalidBundleSigningKey) 1 false).run sampleCorrupted.2.2 _ _ _ :=
    exec_ask_bind (.sleep 1) () (rfl : overtaken.lastResponse = _) hround
  have hfailed : Exec cellKept (retryBehindAttempt corruptAttempt 1 1
      (.error (.invalidServerResponse .invalidBundleSigningKey))).run sampleCorrupted.2.2 _ _ _ :=
    exec_ask_bind .shutdownRequested false rfl hwait
  have hchecked : Exec cellKept (retryBehindCheck corruptAttempt 0 none 1 false).run emptyMachine
      _ _ _ := (exec_attempt_of hfirst).action_bind hfailed
  rw [retryWithBackoff_succ]
  exact ⟨_, exec_ask_bind .shutdownRequested false rfl hchecked⟩

/-- The machine behind the pin. -/
def pinned : Machine :=
  { overtaken with
    dir := overtaken.dir.install .signingKey (storedLine (trimText (text "corrupt"))) }

def readsPin : EnrollEvent Machine :=
  ⟨overtaken, .readState .signingKey, (.error .notFound : Except ReadError Bytes), overtaken⟩

def writesCorrupt : EnrollEvent Machine :=
  ⟨overtaken, .writeState .signingKey (storedLine (trimText (text "corrupt"))) modePublic,
    (.ok () : Except Error Unit), pinned⟩

def corruptPin : List (EnrollEvent Machine) := [readsPin, writesCorrupt]

theorem corrupt_pin : Exec cellKept
    (pinBundleSigningKey Boots.sampleConfig corruptResponse.bundleSigningKey).run overtaken
    corruptPin (some (.ok true)) pinned :=
  Exec.step rfl (Exec.step rfl (Exec.finished _ pinned))

theorem corrupt_run : ∃ trace, Exec cellKept
    (ensureEnrolled corruptPlatform Boots.sampleConfig sampleHost 2).run emptyMachine
    (trace ++ ⟨overtaken, .lastResponse, some corruptResponse, overtaken⟩ :: corruptPin)
    (some (.ok Boots.sampleIdentity)) pinned := by
  obtain ⟨attempts, hattempts⟩ := overtaken_loop
  have hcell : overtaken.lastResponse = some corruptResponse := overtaken_machine.1
  refine ⟨⟨emptyMachine, .isFile .record, (false : Bool), emptyMachine⟩ ::
    ⟨emptyMachine, .enrollmentToken, some sampleToken, emptyMachine⟩ ::
    ⟨emptyMachine, .connect, (.ok () : Except Error Unit), emptyMachine⟩ :: attempts, ?_⟩
  refine exec_ask_bind _ _ rfl (exec_ask_bind _ _ rfl ?_)
  rw [okOr, ofExcept_ok_bind, sampleToken_valid, ofExcept_ok_bind]
  refine exec_ask_bind _ _ rfl ?_
  rw [ofExcept_ok_bind]
  refine hattempts.action_bind (exec_ask_bind _ _ ⟨hcell.symm, rfl⟩ ?_)
  rw [← List.append_nil corruptPin]
  exact corrupt_pin.action_bind (Exec.finished _ _)

theorem corruptResponse_invalid :
    validateResponse corruptPlatform.toCrypto corruptResponse ≠ .ok () := by
  decide +kernel

/-- The corrupt key is pinned, in spite of the validation that refused it. -/
theorem corrupt_key_pinned : ¬ ∀ (p : Platform) (config : Config) (hostname : Text) (fuel : Nat)
    (m m' : Machine) (trace : List (EnrollEvent Machine))
    (result : Option (Except Error MachineIdentity)),
    Exec cellKept (ensureEnrolled p config hostname fuel).run m trace result m' →
      Throughout (PinValidated p) [] trace := by
  intro h
  obtain ⟨trace, hexec⟩ := corrupt_run
  have hsplit : trace ++ ⟨overtaken, .lastResponse, some corruptResponse, overtaken⟩ ::
      corruptPin = (trace ++ [⟨overtaken, .lastResponse, some corruptResponse, overtaken⟩] ++
        [readsPin]) ++ [writesCorrupt] := by simp [corruptPin]
  have hvalidated := throughout_iff.mp (h _ _ _ _ _ _ _ _ hexec) _ _ _ hsplit
  obtain ⟨response, key, hhanded, _, _, _, hvalid⟩ := hvalidated _ _ _ rfl
  rw [List.nil_append, handedOut_append, handedOut_append] at hhanded
  obtain rfl : corruptResponse = response := Option.some.inj hhanded
  exact corruptResponse_invalid hvalid

end MayflyAgent.PinProvenance
