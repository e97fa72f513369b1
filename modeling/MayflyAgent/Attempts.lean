import MayflyAgent.Budgets
import MayflyAgent.Enrollment

/-!
What an attempt to enroll can call. An attempt always ends; apart from the request to the server
and the cell in which the client keeps its response, it only deals with the identity directory, the
clock and the random source. The loop around the attempts is cut at its checks.
-/
namespace MayflyAgent.Attempts

open RustText Programs Budgets Errors Bundles Enrollment

variable {p : Platform} {α β : Type}

/-- Calls that neither reach the server nor the cell. -/
def OnDisk : EnrollOp → Prop
  | .isFile _ | .symlinkMetadata _ | .read _ | .secureWrite _ _ _ | .generateKey | .now => True
  | _ => False

/-- The calls that an attempt makes. -/
def OfAttempt : EnrollOp → Prop
  | .postJson _ _ | .setLastResponse _ => True
  | op => OnDisk op

theorem ofAttempt_of_onDisk (op : EnrollOp) (h : OnDisk op) : OfAttempt op := by
  cases op <;> trivial

theorem ends_ask {op : EnrollOp} {f : op.Answer → Except Error α} (hop : OnDisk op) :
    EndsCalling OnDisk (ask op >>= fun answer => Action.ofExcept (f answer)).run :=
  ⟨hop, fun _ => trivial⟩

theorem ends_check {r : Except Error α} {f : α → EnrollAction β}
    (hf : ∀ a, EndsCalling OnDisk (f a).run) :
    EndsCalling OnDisk (Action.ofExcept r >>= f).run :=
  endsCalling_bind trivial hf

theorem ends_pathExists (file : IdentityFile) : EndsCalling OnDisk (pathExists file).run :=
  ⟨trivial, fun _ => trivial⟩

theorem ends_lstat (file : IdentityFile) : EndsCalling OnDisk (lstat file).run :=
  ends_ask trivial

theorem ends_readKeypair : EndsCalling OnDisk (readKeypair p).run := by
  have hsecurity : EndsCalling OnDisk (validatePrivateKeySecurity p).run :=
    endsCalling_bind (endsCalling_bind (ends_ask trivial) fun _ => trivial) fun _ =>
      endsCalling_bind (endsCalling_bind (ends_lstat _) fun _ => trivial) fun _ =>
        endsCalling_bind (endsCalling_bind (ends_lstat _) fun _ => trivial) fun _ =>
          endsCalling_bind (ends_lstat _) fun _ => trivial
  exact endsCalling_bind hsecurity fun _ => endsCalling_bind (ends_ask trivial) fun _ =>
    ends_check fun _ => trivial

theorem ends_secureWrite (file : IdentityFile) (contents : Bytes) (mode : UInt32) :
    EndsCalling OnDisk (secureWrite file contents mode).run := ends_ask trivial

theorem ends_writeKeypair (keypair : MachineKeypair) :
    EndsCalling OnDisk (writeKeypair p keypair).run :=
  ends_check fun _ => endsCalling_bind (ends_secureWrite _ _ _) fun _ =>
    ends_check fun _ => ends_secureWrite _ _ _

theorem ends_generateMachineKeypair : EndsCalling OnDisk (generateMachineKeypair p).run := by
  refine endsCalling_bind (ends_pathExists _) fun found => ?_
  split
  · trivial
  refine endsCalling_bind (ends_pathExists _) fun found => ?_
  split
  · trivial
  refine endsCalling_bind (endsCalling_perform trivial) fun seed => ends_check fun seed => ?_
  exact endsCalling_bind (ends_writeKeypair _) fun _ => trivial

theorem ends_loadOrGenerateKeypair : EndsCalling OnDisk (loadOrGenerateKeypair p).run := by
  refine endsCalling_bind (ends_pathExists _) fun found => ?_
  split
  · exact ends_readKeypair
  · exact ends_generateMachineKeypair

theorem ends_loadMachineIdentity : EndsCalling OnDisk (loadMachineIdentity p).run :=
  endsCalling_bind ends_readKeypair fun _ => ends_check fun _ =>
    endsCalling_bind (endsCalling_bind (ends_ask trivial) fun _ => trivial) fun _ => trivial

theorem ends_persistMachineIdentity (serverUrl hostname : Text) (keypair : MachineKeypair)
    (response : EnrollmentResponse) :
    EndsCalling OnDisk (persistMachineIdentity p serverUrl hostname keypair response).run := by
  refine ends_check fun _ => ends_check fun _ => ends_check fun _ => ends_check fun _ => ?_
  refine endsCalling_bind (endsCalling_perform trivial) fun _ => ?_
  refine endsCalling_bind ?_ fun _ => trivial
  exact ends_check fun _ => ends_secureWrite _ _ _

theorem ends_clientEnroll (serverUrl : Text) (request : EnrollmentRequest) :
    EndsCalling OfAttempt (clientEnroll p serverUrl request).run :=
  endsCalling_bind trivial fun _ => endsCalling_bind (endsCalling_perform trivial) fun _ =>
    endsCalling_bind trivial fun _ => endsCalling_bind trivial fun _ =>
      endsCalling_bind trivial fun _ => endsCalling_bind (endsCalling_perform trivial) fun _ =>
        trivial

theorem ends_enroll (serverUrl token hostname : Text) :
    EndsCalling OfAttempt (enroll p serverUrl token hostname).run := by
  refine endsCalling_bind (endsCalling_perform trivial) fun found => ?_
  split
  · trivial
  refine endsCalling_bind trivial fun _ => endsCalling_bind trivial fun _ => ?_
  refine endsCalling_bind trivial fun _ => ?_
  refine endsCalling_bind (ends_loadOrGenerateKeypair.mono ofAttempt_of_onDisk) fun keypair => ?_
  refine endsCalling_bind trivial fun request => ?_
  refine endsCalling_bind (ends_clientEnroll _ _) fun response => ?_
  exact (ends_persistMachineIdentity _ _ _ _).mono ofAttempt_of_onDisk

theorem ends_attemptEnrollment (config : Config) (token hostname : Text) :
    EndsCalling OfAttempt (attemptEnrollment p config token hostname).run := by
  refine endsCalling_bind (endsCalling_attempt (ends_enroll _ _ _)) fun outcome => ?_
  split
  · trivial
  · exact ends_loadMachineIdentity.mono ofAttempt_of_onDisk
  · trivial

/-- What the loop does behind the check that follows a failure. -/
def retryBehindFailure (op : EnrollAction α) (attempt : UInt32) (err : Error) (fuel : Nat)
    (requested : Bool) : EnrollAction α := do
  if requested then throw err
  else
    let _ ← ask (.sleep attempt)
    retryWithBackoff op attempt (some err) fuel

def retryBehindAttempt (op : EnrollAction α) (attempt : UInt32) (fuel : Nat) :
    Except Error α → EnrollAction α
  | .ok value => pure value
  | .error err => shutdownRequested >>= retryBehindFailure op attempt err fuel

/-- What it does behind the check of a round. -/
def retryBehindCheck (op : EnrollAction α) (attempt : UInt32) (lastErr : Option Error) (fuel : Nat)
    (requested : Bool) : EnrollAction α := do
  if requested then throw (lastErr.getD .enrollmentTransport)
  else
    let outcome ← op.attempt
    retryBehindAttempt op (nextAttempt attempt) fuel outcome

theorem retryWithBackoff_succ (op : EnrollAction α) (attempt : UInt32) (lastErr : Option Error)
    (fuel : Nat) : retryWithBackoff op attempt lastErr (fuel + 1) =
      shutdownRequested >>= retryBehindCheck op attempt lastErr fuel := by
  refine congrArg _ (funext fun requested => ?_)
  cases requested with
  | true => rfl
  | false =>
    refine congrArg (op.attempt >>= ·) (funext fun outcome => ?_)
    cases outcome with
    | ok value => rfl
    | error err => rfl

end MayflyAgent.Attempts
