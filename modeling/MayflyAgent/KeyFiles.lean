import MayflyAgent.EnrollmentRuns

/-!
The two key files after enrollment. An attempt that finds no private key writes both files, one
after the other; an attempt that finds one reads it and leaves the public key file alone. So an
attempt that stops between the two writes leaves a gap that no later attempt closes.
-/
namespace MayflyAgent.KeyFiles

open RustText Programs Program Contracts Checks Errors Bundles StateFiles CaSync Enrollment
open EnrollmentRuns

variable (p : Platform)

/-- Both files exist, and the public one is the line of the private one's keypair. -/
def Consistent (m : Machine) : Prop :=
  ∃ keypair line, KeyOnDisk p m keypair ∧ p.publicKeyToOpenssh keypair = some line ∧
    m.identity .publicKey = some (storedLine line)

/-- The file is there for the first time. -/
def Installs (file : IdentityFile) (e : EnrollEvent Machine) : Prop :=
  e.before.identity file = none ∧ e.after.identity file ≠ none

/-- The attempt left a new private key file, and did not get the public one in place. -/
def StoppedBetween (trace : List (EnrollEvent Machine)) : Prop :=
  (∃ e ∈ trace, Installs .privateKey e) ∧ ∀ e ∈ trace, ¬ Installs .publicKey e

/-- A public key file is only written behind the private one it belongs to, by the same attempt. -/
def WritesInOrder (past : List (EnrollEvent Machine)) (e : EnrollEvent Machine) : Prop :=
  ∀ contents mode, e.op = .secureWrite .publicKey contents mode →
    (∃ e' ∈ past, Installs .privateKey e') ∧ ∃ keypair line,
      p.publicKeyToOpenssh keypair = some line ∧ contents = storedLine line ∧
        (RoundTrips p → KeyOnDisk p e.before keypair)

theorem enrolling_file {m m' : Machine} {op : EnrollOp} {answer : op.Answer}
    (h : enrolling m op answer m') (file : IdentityFile) :
    m'.identity file = m.identity file ∨
      ∃ contents mode, op = .secureWrite file contents mode ∧ m' = m.install file contents := by
  by_cases hquiet : IsQuiet op
  · exact Or.inl (by rw [enrolling_quiet h hquiet])
  cases op with
  | secureWrite written contents mode =>
    have hcases : m' = m.install written contents ∨ m' = m := by
      rcases h with ⟨_, rfl⟩ | ⟨_, hm⟩
      · exact Or.inl rfl
      · exact hm
    rcases hcases with rfl | rfl
    · by_cases hfile : file = written
      · subst hfile
        exact Or.inr ⟨contents, mode, rfl, rfl⟩
      · exact Or.inl (install_other m contents hfile)
    · exact Or.inl rfl
  | connect => exact Or.inl (by rw [show m' = _ from h])
  | postJson url body => exact Or.inl (by rw [h.2])
  | setLastResponse response => exact Or.inl (by rw [show m' = _ from h])
  | writeState file contents mode =>
    rcases h with ⟨_, rfl⟩ | ⟨_, rfl | rfl⟩ <;> exact Or.inl rfl
  | isFile file => exact absurd trivial hquiet
  | symlinkMetadata file => exact absurd trivial hquiet
  | read file => exact absurd trivial hquiet
  | generateKey => exact absurd trivial hquiet
  | enrollmentToken => exact absurd trivial hquiet
  | lastResponse => exact absurd trivial hquiet
  | now => exact absurd trivial hquiet
  | shutdownRequested => exact absurd trivial hquiet
  | sleep attempt => exact absurd trivial hquiet
  | readState file => exact absurd trivial hquiet

/-- Calls that leave both key files alone. -/
def LeavesKeys : EnrollOp → Prop
  | .secureWrite file _ _ => file = .record
  | _ => True

variable {p}

theorem leavesKeys_file {m m' : Machine} {op : EnrollOp} {answer : op.Answer}
    (h : enrolling m op answer m') (hop : LeavesKeys op) (file : IdentityFile)
    (hfile : file ≠ .record) : m'.identity file = m.identity file := by
  rcases enrolling_file h file with hsame | ⟨contents, mode, rfl, _⟩
  · exact hsame
  · exact absurd hop hfile

section Calls

variable {α β : Type}

theorem calls_ask {op : EnrollOp} {f : op.Answer → Except Error α} (hop : LeavesKeys op) :
    (ask op >>= fun answer => Action.ofExcept (f answer)).run.Calls LeavesKeys :=
  ⟨hop, fun _ => trivial⟩

theorem calls_check {r : Except Error α} {f : α → EnrollAction β}
    (hf : ∀ a, (f a).run.Calls LeavesKeys) :
    (Action.ofExcept r >>= f).run.Calls LeavesKeys := calls_bind trivial hf

theorem calls_readKeypair : (readKeypair p).run.Calls LeavesKeys := by
  have hlook : ∀ (f : Metadata → Except Error Unit),
      (lstat .privateKey >>= fun metadata => Action.ofExcept (f metadata)).run.Calls LeavesKeys :=
    fun f => calls_bind (calls_ask trivial) fun _ => trivial
  refine calls_bind ?_ fun _ => calls_bind (calls_ask trivial) fun _ => calls_check fun _ => trivial
  refine calls_bind (calls_bind (calls_ask trivial) fun _ => trivial) fun _ => ?_
  exact calls_bind (hlook _) fun _ => calls_bind (hlook _) fun _ => hlook _

theorem calls_clientEnroll (serverUrl : Text) (request : EnrollmentRequest) :
    (clientEnroll p serverUrl request).run.Calls LeavesKeys := by
  refine calls_check fun body => calls_bind (calls_perform trivial) fun answer => ?_
  refine calls_check fun response => calls_check fun _ => calls_check fun parsed => ?_
  exact calls_bind (calls_perform trivial) fun _ => trivial

theorem calls_persistMachineIdentity (serverUrl hostname : Text) (keypair : MachineKeypair)
    (response : EnrollmentResponse) :
    (persistMachineIdentity p serverUrl hostname keypair response).run.Calls LeavesKeys := by
  refine calls_check fun _ => calls_check fun _ => calls_check fun _ => calls_check fun _ => ?_
  refine calls_bind (calls_perform trivial) fun now => calls_bind ?_ fun _ => trivial
  exact calls_check fun json => calls_ask rfl

end Calls

/-- A failure says nothing. -/
def Anyhow (_ : Error) : Condition enrollSignature Machine := fun _ _ => True

theorem leavesKeys_inOrder {past : List (EnrollEvent Machine)} {e : EnrollEvent Machine}
    (h : LeavesKeys e.op) : WritesInOrder p past e := by
  intro contents mode hop
  rw [hop] at h
  cases h

/-- What only speaks of the key files outlives the calls that leave them alone. -/
theorem meets_leavesKeys {α : Type} {x : EnrollAction α} (hx : x.run.Calls LeavesKeys)
    {C : Option Bytes → Option Bytes → Prop} : Meets enrolling (WritesInOrder p)
      (fun _ m => C (m.identity .privateKey) (m.identity .publicKey)) x.run
      (Returns Anyhow fun _ _ m => C (m.identity .privateKey) (m.identity .publicKey)) := by
  refine (meets_keeps_action hx fun past m op answer m' hop hC henv => ?_).post
    fun result past m h => ?_
  · rw [leavesKeys_file henv hop .privateKey nofun, leavesKeys_file henv hop .publicKey nofun]
    exact ⟨leavesKeys_inOrder hop, hC⟩
  · cases result with
    | ok a => exact h
    | error e => trivial

/-- What looking for a file adds. -/
theorem meets_pathExists (file : IdentityFile) {C : Option Bytes → Option Bytes → Prop} :
    Meets enrolling (WritesInOrder p)
      (fun _ m => C (m.identity .privateKey) (m.identity .publicKey)) (pathExists file).run
      (Returns Anyhow fun found _ m => C (m.identity .privateKey) (m.identity .publicKey) ∧
        found = (m.identity file).isSome) := by
  refine meets_call (M := fun answer _ m => C (m.identity .privateKey) (m.identity .publicKey) ∧
    answer.isOk = (m.identity file).isSome) (fun past m answer m' hC henv => ?_) fun answer => ?_
  · obtain ⟨hanswer, rfl⟩ := henv
    exact ⟨leavesKeys_inOrder trivial, hC, hanswer⟩
  · exact meets_done fun _ _ h => h

theorem meets_secureWrite {P Q : Condition enrollSignature Machine} {file : IdentityFile}
    {contents : Bytes} {mode : UInt32}
    (horder : ∀ past m answer m', P past m → WritesInOrder p past
      ⟨m, .secureWrite file contents mode, answer, m'⟩)
    (hwritten : ∀ past m answer, P past m → Q (past ++ [⟨m, .secureWrite file contents mode, answer,
      m.install file contents⟩]) (m.install file contents)) :
    Meets enrolling (WritesInOrder p) P (secureWrite file contents mode).run
      (Returns Anyhow fun _ => Q) := by
  refine meets_ask fun past m answer m' hP henv => ⟨horder past m answer m' hP, ?_⟩
  rcases henv with ⟨rfl, rfl⟩ | ⟨rfl | rfl, _⟩
  · exact hwritten past m _ hP
  · trivial
  · trivial

theorem meets_writeKeypair (keypair : MachineKeypair) : Meets enrolling (WritesInOrder p)
    (fun _ m => m.identity .privateKey = none ∧ m.identity .publicKey = none)
    (writeKeypair p keypair).run
    (Returns Anyhow fun _ _ m => m.identity .privateKey ≠ none) := by
  refine meets_ofExcept_bind (fun _ _ _ _ _ => trivial) fun pem hpem => ?_
  have hprivate : Meets enrolling (WritesInOrder p)
      (fun _ m => m.identity .privateKey = none ∧ m.identity .publicKey = none)
      (secureWrite .privateKey (encodeUtf8 pem) modeSecret).run
      (Returns Anyhow fun _ past m => (∃ e ∈ past, Installs .privateKey e) ∧
        m.identity .privateKey = some (encodeUtf8 pem)) := by
    refine meets_secureWrite (fun _ _ _ _ _ => nofun) fun past m answer hm => ?_
    have hinstalls : Installs .privateKey ⟨m, .secureWrite .privateKey (encodeUtf8 pem) modeSecret,
        answer, m.install .privateKey (encodeUtf8 pem)⟩ := by
      refine ⟨hm.1, ?_⟩
      show (m.install .privateKey (encodeUtf8 pem)).identity .privateKey ≠ none
      rw [EnrollmentRuns.install_same]
      exact Option.some_ne_none _
    exact ⟨⟨_, List.mem_append_right _ (List.mem_singleton_self _), hinstalls⟩,
      EnrollmentRuns.install_same ..⟩
  refine hprivate.andThen fun _ => ?_
  refine meets_ofExcept_bind (fun _ _ _ _ _ => trivial) fun line hline => ?_
  refine meets_secureWrite (fun past m answer m' hm => ?_) fun past m answer hm => ?_
  · intro contents mode hop
    cases hop
    exact ⟨hm.1, keypair, line, okOr_eq_ok.mp hline, rfl, fun hcodec =>
      ⟨_, pem, hm.2, decodeUtf8_encodeUtf8 pem, hcodec keypair pem (okOr_eq_ok.mp hpem)⟩⟩
  · have hother : IdentityFile.privateKey ≠ .publicKey := nofun
    rw [install_other m _ hother, hm.2]
    exact Option.some_ne_none _

theorem meets_loadOrGenerateKeypair : Meets enrolling (WritesInOrder p) (fun _ _ => True)
    (loadOrGenerateKeypair p).run
    (Returns Anyhow fun _ _ m => m.identity .privateKey ≠ none) := by
  refine Meets.andThen (meets_pathExists .privateKey (C := fun _ _ => True)) fun found => ?_
  cases found with
  | true =>
    refine (meets_leavesKeys calls_readKeypair (C := fun key _ => key ≠ none)).pre
      fun _ m hm => ?_
    exact Option.isSome_iff_ne_none.mp hm.2.symm
  | false =>
    have hnone : ∀ {file} {m : Machine}, false = (m.identity file).isSome →
        m.identity file = none := fun h => Option.not_isSome_iff_eq_none.mp fun hsome =>
      Bool.false_ne_true (h.trans hsome)
    refine Meets.andThen ((meets_pathExists .privateKey (C := fun key _ => key = none)).pre
      fun _ m hm => hnone hm.2) fun found => ?_
    split
    · exact meets_throw fun _ _ _ => trivial
    refine Meets.andThen ((meets_pathExists .publicKey (C := fun key _ => key = none)).pre
      fun _ m hm => hm.1) fun found => ?_
    cases found with
    | true => exact meets_throw fun _ _ _ => trivial
    | false =>
      refine Meets.andThen ((meets_leavesKeys (x := ask .generateKey) (calls_perform trivial)
        (C := fun key line => key = none ∧ line = none)).pre fun _ m hm => ⟨hm.1, hnone hm.2⟩)
        fun seed => ?_
      refine meets_ofExcept_bind (fun _ _ _ _ _ => trivial) fun seed _ => ?_
      exact Meets.andThen (meets_writeKeypair _) fun _ => meets_pure fun _ _ hm => hm

theorem meets_enroll (serverUrl token hostname : Text) : Meets enrolling (WritesInOrder p)
    (fun _ _ => True) (enroll p serverUrl token hostname).run
    (Returns Anyhow fun _ _ m => m.identity .privateKey ≠ none) := by
  have hcheck : ∀ {α β : Type} {r : Except Error α} {f : α → EnrollAction β}
      {P : Condition enrollSignature Machine} {Q : β → Condition enrollSignature Machine},
      (∀ a, Meets enrolling (WritesInOrder p) P (f a).run (Returns Anyhow Q)) →
        Meets enrolling (WritesInOrder p) P (Action.ofExcept r >>= f).run (Returns Anyhow Q) :=
    fun hf => meets_ofExcept_bind (fun _ _ _ _ _ => trivial) fun a _ => hf a
  refine Meets.andThen (meets_leavesKeys (x := isEnrolled) (calls_perform trivial)
    (C := fun _ _ => True)) fun enrolled => ?_
  split
  · exact meets_throw fun _ _ _ => trivial
  refine hcheck fun _ => hcheck fun _ => hcheck fun _ => ?_
  refine Meets.andThen meets_loadOrGenerateKeypair fun keypair => hcheck fun request => ?_
  refine Meets.andThen (meets_leavesKeys (calls_clientEnroll _ _)
    (C := fun key _ => key ≠ none)) fun response => ?_
  exact meets_leavesKeys (calls_persistMachineIdentity _ _ _ _) (C := fun key _ => key ≠ none)

/-- A file that no call puts in place is what it was. -/
theorem file_of_not_installed {program : Program enrollSignature (Except Error MachineIdentity)}
    {m m' : Machine} {trace : List (EnrollEvent Machine)}
    {result : Option (Except Error MachineIdentity)} {file : IdentityFile}
    (h : Exec enrolling program m trace result m') (hm : m.identity file = none)
    (hnone : ∀ e ∈ trace, ¬ Installs file e) : m'.identity file = none :=
  (h.invariant (I := fun m => m.identity file = none) (fun e he hbefore =>
    not_not.mp fun hafter => hnone e he ⟨hbefore, hafter⟩) hm).1

structure AttemptEffect (p : Platform) (m : Machine) (trace : List (EnrollEvent Machine))
    (result : Option (Except Error MachineIdentity)) (m' : Machine) : Prop where
  privateKept : Kept .privateKey m m'
  inOrder : Throughout (WritesInOrder p) [] trace
  atEvents : ∀ e ∈ trace, Kept .privateKey m e.before ∧ Kept .privateKey e.before e.after ∧
    Kept .privateKey e.after m'
  done : ∀ identity, result = some (.ok identity) → m'.identity .privateKey ≠ none

theorem attempt_effect {program : Program enrollSignature (Except Error MachineIdentity)}
    {m m' : Machine} {trace : List (EnrollEvent Machine)}
    {result : Option (Except Error MachineIdentity)} (hprogram : IsAttempt p program)
    (h : Exec enrolling program m trace result m') : AttemptEffect p m trace result m' := by
  have hkept : ∀ e ∈ trace, Kept .privateKey e.before e.after := by
    intro e he
    obtain ⟨past, hlawful⟩ := (attempt_lawful hprogram h).1 e he
    exact hlawful.key
  have haround := h.relates_around (R := Kept .privateKey) Kept.refl (fun _ _ _ => Kept.trans) hkept
  have hends := h.relates (R := Kept .privateKey) Kept.refl (fun _ _ _ => Kept.trans) hkept
  obtain ⟨serverUrl, token, hostname, rfl⟩ := hprogram
  obtain ⟨hordered, hresult⟩ := meets_enroll serverUrl token hostname [] m trace result m' trivial h
  exact ⟨hends, hordered, fun e he => ⟨(haround e he).1, hkept e he, (haround e he).2⟩,
    fun identity hok => hresult _ hok⟩

section Attempts

variable {m m' : Machine} {trace : List (EnrollEvent Machine)}
  {result : Option (Except Error MachineIdentity)}

/-- An attempt that finds a private key installs neither file. -/
theorem AttemptEffect.quiet (h : AttemptEffect p m trace result m')
    (hm : m.identity .privateKey ≠ none) : ∀ e ∈ trace, ¬ Installs .privateKey e ∧
      ∀ contents mode, e.op ≠ .secureWrite .publicKey contents mode := by
  have hprivate : ∀ e ∈ trace, ¬ Installs .privateKey e := fun e he hinstalls =>
    (h.atEvents e he).1.ne_none hm hinstalls.1
  intro e he
  refine ⟨hprivate e he, fun contents mode hop => ?_⟩
  obtain ⟨first, rest, htrace⟩ := List.append_of_mem he
  have horder := (htrace ▸ h.inOrder).middle contents mode hop
  obtain ⟨⟨e', he', hinstalls⟩, _⟩ := horder
  refine hprivate e' ?_ hinstalls
  rw [htrace]
  exact List.mem_append_left _ (by simpa using he')

/-- A public key file appears behind a private one of the same attempt. -/
theorem AttemptEffect.both (h : AttemptEffect p m trace result m')
    (hexec : ∀ e ∈ trace, enrolling e.before e.op e.answer e.after)
    (hpublic : ∃ e ∈ trace, Installs .publicKey e) : ∃ e ∈ trace, Installs .privateKey e := by
  obtain ⟨e, he, hbefore, hafter⟩ := hpublic
  obtain ⟨first, rest, htrace⟩ := List.append_of_mem he
  rcases enrolling_file (hexec e he) .publicKey with hsame | ⟨contents, mode, hop, _⟩
  · exact absurd (hsame.trans hbefore) hafter
  · obtain ⟨⟨e', he', hinstalls⟩, _⟩ := (htrace ▸ h.inOrder).middle contents mode hop
    refine ⟨e', ?_, hinstalls⟩
    rw [htrace]
    exact List.mem_append_left _ (by simpa using he')

/-- No call removes a file. -/
theorem file_stays {program : Program enrollSignature (Except Error MachineIdentity)}
    (h : Exec enrolling program m trace result m') (file : IdentityFile) :
    ∀ e ∈ trace, e.after.identity file ≠ none → m'.identity file ≠ none := by
  have htrans : ∀ u v x : Machine, (u.identity file ≠ none → v.identity file ≠ none) →
      (v.identity file ≠ none → x.identity file ≠ none) →
        u.identity file ≠ none → x.identity file ≠ none :=
    fun _ _ _ hfirst hsecond hu => hsecond (hfirst hu)
  refine fun e he => (h.relates_around (fun _ => id) htrans (fun e he hbefore => ?_) e he).2
  rcases enrolling_file (h.event_env e he) file with hsame | ⟨contents, _, _, hinstall⟩
  · rwa [hsame]
  · rw [hinstall, EnrollmentRuns.install_same]
    exact Option.some_ne_none _

theorem file_ne_none_iff {program : Program enrollSignature (Except Error MachineIdentity)}
    (h : Exec enrolling program m trace result m') (file : IdentityFile)
    (hm : m.identity file = none) :
    m'.identity file ≠ none ↔ ∃ e ∈ trace, Installs file e := by
  refine ⟨fun hend => ?_, fun ⟨e, he, hinstalls⟩ => file_stays h file e he hinstalls.2⟩
  by_contra hnever
  exact hend (file_of_not_installed h hm fun e he hinstalls => hnever ⟨e, he, hinstalls⟩)

/-- With a private key at its start an attempt does not touch the public key file. -/
theorem public_kept {program : Program enrollSignature (Except Error MachineIdentity)}
    (hprogram : IsAttempt p program) (h : Exec enrolling program m trace result m')
    (hm : m.identity .privateKey ≠ none) : m'.identity .publicKey = m.identity .publicKey := by
  refine h.frame (fun m => m.identity .publicKey) fun e he => ?_
  rcases enrolling_file (h.event_env e he) .publicKey with hsame | ⟨contents, mode, hop, _⟩
  · exact hsame
  · exact absurd hop (((attempt_effect hprogram h).quiet hm e he).2 contents mode)

end Attempts

section Sequences

variable {m m' : Machine} {passes : List EnrollPass}

/-- Once there is a private key, the public key file stays what it is. -/
theorem run_public_kept (h : RunOf enrolling (IsAttempt p) m passes m')
    (hm : m.identity .privateKey ≠ none) : m'.identity .publicKey = m.identity .publicKey ∧
      ∀ o ∈ passes, ¬ StoppedBetween o.trace := by
  have hstep : ∀ (program : Program enrollSignature (Except Error MachineIdentity))
      (q : EnrollPass), IsAttempt p program →
      Exec enrolling program q.before q.trace q.result q.after → True →
      q.before.identity .privateKey ≠ none ∧
        q.before.identity .publicKey = m.identity .publicKey →
      q.after.identity .privateKey ≠ none ∧
        q.after.identity .publicKey = m.identity .publicKey := by
    intro program q hprogram hexec _ ⟨hprivate, hpublic⟩
    exact ⟨(attempt_effect hprogram hexec).privateKept.ne_none hprivate,
      (public_kept hprogram hexec hprivate).trans hpublic⟩
  obtain ⟨⟨_, hend⟩, hpasses⟩ := h.invariant (I := fun v => v.identity .privateKey ≠ none ∧
    v.identity .publicKey = m.identity .publicKey) hstep (fun _ _ => trivial) ⟨hm, rfl⟩
  refine ⟨hend, fun o ho hstopped => ?_⟩
  obtain ⟨⟨hprivate, _⟩, program, hprogram, hexec⟩ := hpasses o ho
  obtain ⟨e, he, hinstalls⟩ := hstopped.1
  exact ((attempt_effect hprogram hexec).quiet hprivate e he).1 hinstalls

/-- The public key file is missing behind the private one just when an attempt stopped between
them. -/
theorem run_public_iff (h : RunOf enrolling (IsAttempt p) m passes m')
    (hprivate : m.identity .privateKey = none) (hpublic : m.identity .publicKey = none)
    (hend : m'.identity .privateKey ≠ none) :
    m'.identity .publicKey ≠ none ↔ ∀ o ∈ passes, ¬ StoppedBetween o.trace := by
  induction h with
  | nil m => exact absurd hprivate hend
  | @cons program m m₁ m' trace result passes hprogram hexec hrest ih =>
    have heffect := attempt_effect hprogram hexec
    have hprivateIff := file_ne_none_iff hexec _ hprivate
    have hpublicIff := file_ne_none_iff hexec _ hpublic
    rw [List.forall_mem_cons]
    by_cases hmade : m₁.identity .privateKey = none
    · -- This attempt left no key, so the files are still missing after it.
      have hnot : ¬ ∃ e ∈ trace, Installs .privateKey e :=
        fun hinstalled => hprivateIff.mpr hinstalled hmade
      have hstill : m₁.identity .publicKey = none := by
        by_contra hsome
        exact hnot (heffect.both hexec.event_env (hpublicIff.mp hsome))
      rw [ih hmade hstill hend]
      exact ⟨fun hall => ⟨fun hstopped => hnot hstopped.1, hall⟩, fun hall => hall.2⟩
    · -- This attempt made the key; the later ones find it.
      obtain ⟨hkept, hlater⟩ := run_public_kept hrest hmade
      rw [hkept, hpublicIff]
      constructor
      · rintro ⟨e, he, hinstalls⟩
        exact ⟨fun hstopped => hstopped.2 e he hinstalls, hlater⟩
      · rintro ⟨hnot, _⟩
        by_contra hnever
        exact hnot ⟨hprivateIff.mp hmade, fun e he hinstalls => hnever ⟨e, he, hinstalls⟩⟩

theorem Consistent.kept (h : Consistent p m) (hprivate : Kept .privateKey m m')
    (hpublic : m'.identity .publicKey = m.identity .publicKey) : Consistent p m' := by
  obtain ⟨keypair, line, ⟨bytes, pem, hbytes, hpem, hparse⟩, hline, hfile⟩ := h
  exact ⟨keypair, line, ⟨bytes, pem, hprivate bytes hbytes, hpem, hparse⟩, hline,
    hpublic.trans hfile⟩

/-- A public key file never belongs to another private one. -/
theorem run_matched (hcodec : RoundTrips p) (h : RunOf enrolling (IsAttempt p) m passes m')
    (hm : m.identity .publicKey ≠ none → Consistent p m) :
    m'.identity .publicKey ≠ none → Consistent p m' := by
  refine (h.invariant (I := fun m => m.identity .publicKey ≠ none → Consistent p m)
    (C := fun _ => True) (fun program q hprogram hexec _ hbefore => ?_) (fun _ _ => trivial) hm).1
  have heffect := attempt_effect hprogram hexec
  refine (hexec.invariant (I := fun m => m.identity .publicKey ≠ none → Consistent p m)
    (fun e he hmatched hafter => ?_) hbefore).1
  have hkept := (heffect.atEvents e he).2.1
  rcases enrolling_file (hexec.event_env e he) .publicKey with
    hsame | ⟨contents, mode, hop, hinstall⟩
  · exact (hmatched (hsame ▸ hafter)).kept hkept hsame
  · obtain ⟨first, rest, htrace⟩ := List.append_of_mem he
    obtain ⟨_, keypair, line, hline, rfl, hkey⟩ :=
      (htrace ▸ heffect.inOrder).middle contents mode hop
    obtain ⟨bytes, pem, hbytes, hpem, hparse⟩ := hkey hcodec
    refine ⟨keypair, line, ⟨bytes, pem, hkept bytes hbytes, hpem, hparse⟩, hline, ?_⟩
    rw [hinstall, EnrollmentRuns.install_same]

end Sequences

/-- After an attempt that returned Ok both key files are there and belong together, just when no
attempt since the directory was empty stopped between writing the one and the other. -/
theorem key_files_consistent_iff (hcodec : RoundTrips p) {m m' : Machine}
    {passes : List EnrollPass} {q : EnrollPass} {identity : MachineIdentity}
    (hempty : ∀ file, m.identity file = none)
    (h : RunOf enrolling (IsAttempt p) m (passes ++ [q]) m')
    (hok : q.result = some (.ok identity)) :
    Consistent p m' ↔ ∀ o ∈ passes ++ [q], ¬ StoppedBetween o.trace := by
  obtain ⟨_, hafter, program, hprogram, hexec⟩ := h.last
  have hprivate : m'.identity .privateKey ≠ none :=
    hafter ▸ (attempt_effect hprogram hexec).done identity hok
  rw [← run_public_iff h (hempty _) (hempty _) hprivate]
  constructor
  · rintro ⟨_, line, _, _, hpublic⟩
    rw [hpublic]
    exact Option.some_ne_none _
  · exact run_matched hcodec h fun hpublic => absurd (hempty _) hpublic

/-! An attempt that succeeds at once, and one that is killed in front of its second write. -/

def accepting : Script := ⟨⟨200, sampleResponseBody⟩, fun _ => false⟩

def sampleFirst : List (EnrollEvent Machine) × Option (Except Error MachineIdentity) × Machine :=
  play accepting.answer sampleEnroll emptyMachine

theorem pass_result {m m' : Machine} {trace : List (EnrollEvent Machine)}
    {result : Option (Except Error MachineIdentity)} {identity : MachineIdentity}
    (h : result = some (.ok identity)) :
    (⟨m, trace, result, m'⟩ : EnrollPass).result = some (.ok identity) := h

theorem sampleEnroll_attempt : IsAttempt samplePlatform sampleEnroll :=
  ⟨sampleUrl, sampleToken, sampleHost, rfl⟩

theorem sample_first : RunOf enrolling (IsAttempt samplePlatform) emptyMachine
    ([] ++ [⟨emptyMachine, sampleFirst.1, sampleFirst.2.1, sampleFirst.2.2⟩]) sampleFirst.2.2 :=
  RunOf.cons sampleEnroll_attempt (exec_play (script_enrolling _) _ _) (RunOf.nil _)

theorem key_files_consistent_iff_sample : ∃ identity, sampleFirst.2.1 = some (.ok identity) ∧
    Consistent samplePlatform sampleFirst.2.2 := by
  have hok : sampleFirst.2.1.map Except.isOk = some true ∧
      sampleFirst.2.2.identity .publicKey ≠ none := by decide +kernel
  obtain ⟨result, hresult, hisOk⟩ := Option.map_eq_some_iff.mp hok.1
  cases result with
  | error e => cases hisOk
  | ok identity =>
    refine ⟨identity, hresult, ?_⟩
    refine (key_files_consistent_iff samplePlatform_roundTrips (fun _ => rfl) sample_first
      (pass_result hresult)).mpr fun o ho hstopped => ?_
    obtain rfl := List.mem_singleton.mp ho
    obtain ⟨e, he, hinstalls⟩ := (file_ne_none_iff
      (exec_play (script_enrolling accepting) sampleEnroll emptyMachine) .publicKey rfl).mp hok.2
    exact hstopped.2 e he hinstalls

/-- The process does not live to write the public key file. -/
def stopsAtPublic : EnrollOp → Bool
  | .secureWrite .publicKey _ _ => true
  | _ => false

def sampleKilled : List (EnrollEvent Machine) × Option (Except Error MachineIdentity) × Machine :=
  play (Script.answer { accepting with stops := stopsAtPublic }) sampleEnroll emptyMachine

def sampleRetried : List (EnrollEvent Machine) × Option (Except Error MachineIdentity) × Machine :=
  play accepting.answer sampleEnroll sampleKilled.2.2

theorem sample_interrupted : RunOf enrolling (IsAttempt samplePlatform) emptyMachine
    ([⟨emptyMachine, sampleKilled.1, sampleKilled.2.1, sampleKilled.2.2⟩] ++
      [⟨sampleKilled.2.2, sampleRetried.1, sampleRetried.2.1, sampleRetried.2.2⟩])
    sampleRetried.2.2 := by
  refine RunOf.cons sampleEnroll_attempt (exec_play (script_enrolling _) _ _) ?_
  exact RunOf.cons sampleEnroll_attempt (exec_play (script_enrolling _) _ _) (RunOf.nil _)

/-- The part of an attempt behind the keypair. -/
def sampleBehindKey (keypair : MachineKeypair) : EnrollAction MachineIdentity := do
  let request ← Action.ofExcept
    (createEnrollmentRequest samplePlatform sampleToken sampleHost keypair)
  let response ← clientEnroll samplePlatform sampleUrl request
  persistMachineIdentity samplePlatform sampleUrl sampleHost keypair response

/-- With a key on disk an attempt starts behind the keypair. -/
theorem sampleEnroll_loads {m : Machine} (hrecord : m.identity .record = none)
    (hkey : KeyOnDisk samplePlatform m sampleKeypair) :
    outcome accepting.answer sampleEnroll m =
      outcome accepting.answer (sampleBehindKey sampleKeypair).run m := by
  have hfile : accepting.answer m (.isFile .record) = some (false, m) := by
    show some ((m.identity .record).isSome, m) = _
    rw [hrecord]
    rfl
  have hexists : accepting.answer m (.symlinkMetadata .privateKey) =
      some (.ok ⟨false, 0, 0o100600⟩, m) := by
    obtain ⟨bytes, _, hbytes, _⟩ := hkey
    simp [Script.answer, accepting, reachable, hbytes]
  have hload : outcome accepting.answer (loadOrGenerateKeypair samplePlatform).run m =
      (some (.ok sampleKeypair), m) :=
    (outcome_call hexists).trans (sample_readKeypair hkey)
  have hurl : validateServerUrl sampleUrl = .ok () := by decide +kernel
  have hhost : validateHostname sampleHost = .ok () := by decide +kernel
  refine (outcome_call hfile).trans ?_
  change outcome accepting.answer (Action.ofExcept (validateServerUrl sampleUrl) >>= fun _ =>
    Action.ofExcept (validateToken sampleToken) >>= fun _ =>
      Action.ofExcept (validateHostname sampleHost) >>= fun _ =>
        loadOrGenerateKeypair samplePlatform >>= sampleBehindKey : EnrollAction _).run m = _
  rw [hurl, sampleToken_valid, hhost]
  exact outcome_action_ok sampleBehindKey hload

theorem sampleKilled_files : sampleKilled.2.2.identity .privateKey = some (encodeUtf8 samplePem) ∧
    sampleKilled.2.2.identity .publicKey = none ∧ sampleKilled.2.2.identity .record = none := by
  decide +kernel

theorem sampleRetried_exec : Exec enrolling sampleEnroll sampleKilled.2.2 sampleRetried.1
    sampleRetried.2.1 sampleRetried.2.2 :=
  exec_play (script_enrolling accepting) sampleEnroll sampleKilled.2.2

/-- From there it succeeds on any machine. -/
theorem sampleBehindKey_ok (m : Machine) :
    (outcome accepting.answer (sampleBehindKey sampleKeypair).run m).1.map Except.isOk =
      some true := by
  have hrequest : (createEnrollmentRequest samplePlatform sampleToken sampleHost
      sampleKeypair).isOk = true := by decide +kernel
  have hparsed : okOr (samplePlatform.responseFromJson sampleResponseBody)
      Error.enrollmentRejected = .ok sampleResponse := okOr_eq_ok.mpr (if_pos rfl)
  have hurl : validateServerUrl sampleUrl = .ok () := by decide +kernel
  have hhost : validateHostname sampleHost = .ok () := by decide +kernel
  have hresponse : validateResponse samplePlatform.toCrypto sampleResponse = .ok () := by
    decide +kernel
  have hline : publicKeyOpenssh samplePlatform sampleKeypair = .ok samplePublicLine :=
    okOr_eq_ok.mpr (if_pos rfl)
  cases hmade : createEnrollmentRequest samplePlatform sampleToken sampleHost sampleKeypair with
  | error e =>
    rw [hmade] at hrequest
    cases hrequest
  | ok request =>
    have hclient : outcome accepting.answer (clientEnroll samplePlatform sampleUrl request).run m =
        (some (.ok sampleResponse), { m with lastResponse := some sampleResponse }) := by
      change outcome accepting.answer (Action.ofExcept (okOr
        (samplePlatform.responseFromJson sampleResponseBody) Error.enrollmentRejected) >>=
          fun parsed => ask (.setLastResponse parsed) >>= fun _ => pure parsed :
            EnrollAction _).run m = _
      rw [hparsed]
      rfl
    unfold sampleBehindKey
    rw [hmade, ofExcept_ok_bind, outcome_action_ok _ hclient]
    unfold persistMachineIdentity
    rw [hurl, hhost, hresponse, hline]
    rfl

theorem sampleRetried_ok : ∃ identity, sampleRetried.2.1 = some (.ok identity) := by
  have hkey : KeyOnDisk samplePlatform sampleKilled.2.2 sampleKeypair :=
    ⟨_, samplePem, sampleKilled_files.1, decodeUtf8_encodeUtf8 _, by simp [samplePlatform]⟩
  have hloads := sampleEnroll_loads sampleKilled_files.2.2 hkey
  have hbehind := sampleBehindKey_ok sampleKilled.2.2
  rw [← hloads, outcome] at hbehind
  obtain ⟨result, hresult, hisOk⟩ := Option.map_eq_some_iff.mp hbehind
  cases result with
  | error e => cases hisOk
  | ok identity => exact ⟨identity, hresult⟩

/-- The second attempt returns Ok and leaves the private key file alone in the directory. -/
theorem public_key_missing : ¬ ∀ (p : Platform), RoundTrips p → ∀ (m m' : Machine)
    (passes : List EnrollPass) (q : EnrollPass) (identity : MachineIdentity),
    (∀ file, m.identity file = none) → RunOf enrolling (IsAttempt p) m (passes ++ [q]) m' →
      q.result = some (.ok identity) → Consistent p m' := by
  intro h
  obtain ⟨hprivate, hpublic, _⟩ := sampleKilled_files
  obtain ⟨identity, hresult⟩ := sampleRetried_ok
  obtain ⟨_, line, _, _, hline⟩ := h samplePlatform samplePlatform_roundTrips _ _ _ _ identity
    (fun _ => rfl) sample_interrupted (pass_result hresult)
  have hsame := public_kept sampleEnroll_attempt sampleRetried_exec
    (by rw [hprivate]; exact Option.some_ne_none _)
  rw [hsame, hpublic] at hline
  cases hline

end MayflyAgent.KeyFiles
