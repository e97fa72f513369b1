import MayflyAgent.FileSystems
import MayflyAgent.EnrollmentRuns

/-!
`secure_write`, after `security.rs`, over a directory that may fail or crash at any step. All names
are those of the directory that holds the target. The temporary file, its names and its removal
when it is dropped are those of the tempfile crate.
-/
namespace MayflyAgent.SecureWrites

open RustText Programs Program Contracts Checks Errors FileSystems

structure Path where
  parent : Option Text
  fileName : Text

structure NamedTempFile where
  file : Nat
  path : Text

structure Content where
  data : Bytes
  mode : UInt32

abbrev Directory := FileSystem Text Content

inductive FileOp
  | createTemporary
  | setPermissions (file : Nat) (mode : UInt32)
  | writeAll (file : Nat) (contents : Bytes)
  | syncAll (file : Nat)
  | keep (path : Text)
  | removeFile (path : Text)
  | rename (src dst : Text)
  | openDirectory
  | syncDirectory

/-- An I/O error is never looked into. -/
def FileOp.Answer : FileOp → Type
  | createTemporary => Option NamedTempFile
  | _ => Option Unit

abbrev fileSignature : Signature := { Op := FileOp, Answer := FileOp.Answer }

abbrev FileAction := Action fileSignature Error

abbrev FileEvent := Event fileSignature Directory

def ask (op : FileOp) : FileAction op.Answer := Action.perform (S := fileSignature) op

def newIn : FileAction NamedTempFile := do
  let answer : Option NamedTempFile ← ask .createTemporary
  Action.ofExcept (okOr answer .io)

def setPermissions (file : Nat) (mode : UInt32) : FileAction Unit := do
  let answer : Option Unit ← ask (.setPermissions file mode)
  Action.ofExcept (okOr answer .io)

def writeAll (file : Nat) (contents : Bytes) : FileAction Unit := do
  let answer : Option Unit ← ask (.writeAll file contents)
  Action.ofExcept (okOr answer .io)

def syncAll (file : Nat) : FileAction Unit := do
  let answer : Option Unit ← ask (.syncAll file)
  Action.ofExcept (okOr answer .io)

def keep (path : Text) : FileAction Unit := do
  let answer : Option Unit ← ask (.keep path)
  Action.ofExcept (okOr answer .io)

def rename (src dst : Text) : FileAction Unit := do
  let answer : Option Unit ← ask (.rename src dst)
  Action.ofExcept (okOr answer .io)

/-- A temporary file that is dropped is removed, whether that works or not. -/
def dropping {α : Type} (tmp : NamedTempFile) (x : FileAction α) : FileAction α := do
  match ← x.attempt with
  | .ok a => pure a
  | .error err =>
    let _ ← ask (.removeFile tmp.path)
    throw err

/-- A path without a parent, or with an empty one, is rejected. -/
def parentOf (path : Path) : Except Error Text :=
  okOr (path.parent.filter fun parent => !parent.isEmpty) .invalidPath

def fsyncDir : FileAction Unit := do
  let opened : Option Unit ← ask .openDirectory
  Action.ofExcept (okOr opened .io)
  let synced : Option Unit ← ask .syncDirectory
  Action.ofExcept (okOr synced .io)

def atomicReplace (src : Text) (dst : Path) : FileAction Unit := do
  let _ ← Action.ofExcept (parentOf dst)
  rename src dst.fileName
  fsyncDir

def secureWrite (path : Path) (contents : Bytes) (mode : UInt32) : FileAction Unit := do
  let _ ← Action.ofExcept (parentOf path)
  let tmp ← newIn
  dropping tmp do
    setPermissions tmp.file mode
    writeAll tmp.file contents
    syncAll tmp.file
    keep tmp.path
  atomicReplace tmp.path path

def permissionBits (mode : UInt32) : UInt32 := mode &&& 0o777

/-- A step that fails changes nothing, except that a write may have written a part. A directory is
never replaced by a file. -/
def directory (IsTemporary : Text → Prop) : Environment fileSignature Directory :=
  fun s op answer s' =>
  match op, answer with
  | .createTemporary, some tmp => IsTemporary tmp.path ∧ s.entries tmp.path = none ∧
    s.Unused tmp.file ∧ ∃ mode, s' = s.create tmp.path tmp.file ⟨[], mode⟩
  | .setPermissions file mode, some () => ∃ old, s.nodes file = .file old ∧
    s' = s.setContent file ⟨old.data, permissionBits mode⟩
  | .writeAll file contents, some () => ∃ old, s.nodes file = .file old ∧
    s' = s.setContent file ⟨old.data ++ contents, old.mode⟩
  | .writeAll file contents, none => ∃ old written, s.nodes file = .file old ∧
    written <+: contents ∧ s' = s.setContent file ⟨old.data ++ written, old.mode⟩
  | .syncAll file, some () => s' = s.syncFile file
  | .removeFile path, some () => s' = s.change (.unlink path)
  | .rename src dst, some () => s.lookup dst ≠ some .directory ∧
    ∃ node, s.entries src = some node ∧ s' = s.change (.rename src dst node)
  | .syncDirectory, some () => s' = s.syncDirectory
  | _, _ => s' = s

/-- The file that a write is meant to leave. -/
def written (contents : Bytes) (mode : UInt32) : Node Text Content :=
  .file ⟨contents, permissionBits mode⟩

/-- The same names, apart from the target. -/
def SameNames (target : Text) (before after : Directory) : Prop :=
  ∀ name, name ≠ target → (after.entries name).isSome = (before.entries name).isSome

/-- Renaming or removing the temporary file failed. -/
def Strands (e : FileEvent) : Prop :=
  match e.op, e.answer with
  | .rename _ _, none => True
  | .removeFile _, none => True
  | _, _ => False

section Course

variable (IsTemporary : Text → Prop) (before : Directory) (path : Path) (contents : Bytes)
  (mode : UInt32)

def Tidy (past : List FileEvent) : Prop := ∀ e ∈ past, ¬ Strands e

/-- The temporary file is the only change. -/
structure Working (tmp : NamedTempFile) (s : Directory) : Prop where
  aside : Aside path.fileName tmp.file before s
  other : tmp.path ≠ path.fileName
  fresh : before.entries tmp.path = none
  named : s.entries tmp.path = some tmp.file
  rest : ∀ name, name ≠ tmp.path → s.entries name = before.entries name

/-- Every step leaves the target as it was, or the new file in its place. -/
def Keeps (_ : List FileEvent) (e : FileEvent) : Prop :=
  Atomic path.fileName (written contents mode) before e.after

def WorkingOn (tmp : NamedTempFile) (C : Directory → Prop) : Condition fileSignature Directory :=
  fun past s => Tidy past ∧ Working before path tmp s ∧ C s

def StrandedOnly : Error → Condition fileSignature Directory :=
  fun _ past s => SameNames path.fileName before s ↔ Tidy past

variable {IsTemporary before path contents mode} {tmp : NamedTempFile} {s : Directory}

theorem Working.setContent (h : Working before path tmp s) (content : Content) :
    Working before path tmp (s.setContent tmp.file content) :=
  ⟨h.aside.setContent content, h.other, h.fresh, h.named, h.rest⟩

theorem Working.syncFile (h : Working before path tmp s) :
    Working before path tmp (s.syncFile tmp.file) :=
  ⟨h.aside.syncFile, h.other, h.fresh, h.named, h.rest⟩

theorem working_create (hunused : before.Unused tmp.file) (hother : tmp.path ≠ path.fileName)
    (hfresh : before.entries tmp.path = none) (content : Content) :
    Working before path tmp (before.create tmp.path tmp.file content) where
  aside := (aside_refl hunused).create hother content
  other := hother
  fresh := hfresh
  named := by simp
  rest name hname := by simp [hname]

/-- While the temporary file is there, the names are not the same. -/
theorem Working.not_sameNames (h : Working before path tmp s) :
    ¬ SameNames path.fileName before s := by
  intro hsame
  have hname := hsame tmp.path h.other
  rw [h.named, h.fresh] at hname
  cases hname

theorem Working.removed (h : Working before path tmp s) :
    SameNames path.fileName before (s.change (.unlink tmp.path)) := by
  intro name _
  rw [entries_change]
  by_cases hname : name = tmp.path
  · subst hname
    simp [Change.apply, h.fresh]
  · simp [Change.apply, hname, h.rest name hname]

theorem Working.renamed (h : Working before path tmp s) : SameNames path.fileName before
    (s.change (.rename tmp.path path.fileName tmp.file)) := by
  intro name htarget
  rw [entries_change]
  by_cases hname : name = tmp.path
  · subst hname
    simp [Change.apply, htarget, h.fresh]
  · simp [Change.apply, htarget, hname, h.rest name hname]

theorem tidy_append {past : List FileEvent} {e : FileEvent} :
    Tidy (past ++ [e]) ↔ Tidy past ∧ ¬ Strands e := by
  simp [Tidy, or_imp, forall_and]

/-- A step of the work on the temporary file. -/
theorem meets_working {op : FileOp} {f : op.Answer → Except Error Unit} {C D : Directory → Prop}
    (hquiet : ∀ s answer s', ¬ Strands ⟨s, op, answer, s'⟩)
    (hstep : ∀ s answer s', Working before path tmp s → C s →
      directory IsTemporary s op answer s' →
        Working before path tmp s' ∧ (f answer = .ok () → D s')) :
    Meets (directory IsTemporary) (Keeps before path contents mode) (WorkingOn before path tmp C)
      (ask op >>= fun answer => Action.ofExcept (f answer)).run
      (Returns (fun _ => WorkingOn before path tmp fun _ => True)
        fun _ => WorkingOn before path tmp D) := by
  refine meets_ask fun past s answer s' ⟨htidy, hworking, hC⟩ henv => ?_
  obtain ⟨hworking', hD⟩ := hstep s answer s' hworking hC henv
  have htidy' : Tidy (past ++ [⟨s, op, answer, s'⟩]) :=
    tidy_append.mpr ⟨htidy, hquiet s answer s'⟩
  refine ⟨hworking'.aside.atomic _, ?_⟩
  cases hf : f answer with
  | ok u => exact ⟨htidy', hworking', hD hf⟩
  | error e => exact ⟨htidy', hworking', trivial⟩

/-- The temporary file holds this content. -/
def Holds (tmp : NamedTempFile) (content : Content) (s : Directory) : Prop :=
  s.nodes tmp.file = .file content

theorem holds_setContent {content : Content} : Holds tmp content (s.setContent tmp.file content) :=
  Function.update_self ..

theorem meets_setPermissions {old : UInt32} : Meets (directory IsTemporary)
    (Keeps before path contents mode) (WorkingOn before path tmp (Holds tmp ⟨[], old⟩))
    (setPermissions tmp.file mode).run (Returns (fun _ => WorkingOn before path tmp fun _ => True)
      fun _ => WorkingOn before path tmp (Holds tmp ⟨[], permissionBits mode⟩)) := by
  refine meets_working (fun _ _ _ => id) fun s answer s' hworking hold henv => ?_
  cases answer with
  | none =>
    obtain rfl := henv
    exact ⟨hworking, nofun⟩
  | some u =>
    obtain ⟨content, hcontent, rfl⟩ := henv
    obtain rfl : ⟨[], old⟩ = content := Node.file.inj (hold.symm.trans hcontent)
    exact ⟨hworking.setContent _, fun _ => holds_setContent⟩

theorem meets_writeAll {bits : UInt32} : Meets (directory IsTemporary)
    (Keeps before path contents mode) (WorkingOn before path tmp (Holds tmp ⟨[], bits⟩))
    (writeAll tmp.file contents).run (Returns (fun _ => WorkingOn before path tmp fun _ => True)
      fun _ => WorkingOn before path tmp (Holds tmp ⟨contents, bits⟩)) := by
  refine meets_working (fun _ _ _ => id) fun s answer s' hworking hold henv => ?_
  cases answer with
  | none =>
    obtain ⟨content, part, _, _, rfl⟩ := henv
    exact ⟨hworking.setContent _, nofun⟩
  | some u =>
    obtain ⟨content, hcontent, rfl⟩ := henv
    obtain rfl : ⟨[], bits⟩ = content := Node.file.inj (hold.symm.trans hcontent)
    exact ⟨hworking.setContent _, fun _ => holds_setContent⟩

theorem meets_syncAll {content : Content} : Meets (directory IsTemporary)
    (Keeps before path contents mode) (WorkingOn before path tmp (Holds tmp content))
    (syncAll tmp.file).run (Returns (fun _ => WorkingOn before path tmp fun _ => True)
      fun _ => WorkingOn before path tmp fun s => Holds tmp content s ∧
        s.dirty tmp.file = false) := by
  refine meets_working (fun _ _ _ => id) fun s answer s' hworking hold henv => ?_
  cases answer with
  | none =>
    obtain rfl := henv
    exact ⟨hworking, nofun⟩
  | some u =>
    obtain rfl := henv
    exact ⟨hworking.syncFile, fun _ => ⟨hold, Function.update_self ..⟩⟩

theorem meets_keep {C : Directory → Prop} : Meets (directory IsTemporary)
    (Keeps before path contents mode) (WorkingOn before path tmp C) (keep tmp.path).run
    (Returns (fun _ => WorkingOn before path tmp fun _ => True)
      fun _ => WorkingOn before path tmp C) := by
  refine meets_working (fun _ _ _ => id) fun s answer s' hworking hC henv => ?_
  obtain rfl : s' = s := by
    cases answer <;> exact henv
  exact ⟨hworking, fun _ => hC⟩

/-- The temporary file is created, with any mode. -/
theorem meets_newIn (htarget : ¬ IsTemporary path.fileName) : Meets (directory IsTemporary)
    (Keeps before path contents mode) (fun past s => Tidy past ∧ s = before) newIn.run
    (Returns (StrandedOnly before path) fun tmp past s =>
      ∃ old, WorkingOn before path tmp (Holds tmp ⟨[], old⟩) past s) := by
  refine meets_ask fun past s answer s' ⟨htidy, hs⟩ henv => ?_
  subst hs
  have htidy' : Tidy (past ++ [⟨s, .createTemporary, answer, s'⟩]) :=
    tidy_append.mpr ⟨htidy, id⟩
  cases answer with
  | none =>
    obtain rfl := henv
    exact ⟨atomic_refl _, fun _ => htidy', fun _ _ _ => rfl⟩
  | some tmp =>
    obtain ⟨htemporary, hfresh, hunused, old, rfl⟩ := henv
    have hother : tmp.path ≠ path.fileName := fun heq => htarget (heq ▸ htemporary)
    have hworking : Working s path tmp (s.create tmp.path tmp.file ⟨[], old⟩) :=
      working_create hunused hother hfresh _
    exact ⟨hworking.aside.atomic _, old, htidy', hworking, Function.update_self ..⟩

/-- What the write drops when it fails is removed, if that works. -/
theorem meets_dropping {α : Type} {x : FileAction α} {C : Directory → Prop}
    {Q : α → Condition fileSignature Directory}
    (hx : Meets (directory IsTemporary) (Keeps before path contents mode)
      (WorkingOn before path tmp C) x.run
      (Returns (fun _ => WorkingOn before path tmp fun _ => True) Q)) :
    Meets (directory IsTemporary) (Keeps before path contents mode) (WorkingOn before path tmp C)
      (dropping tmp x).run (Returns (StrandedOnly before path) Q) := by
  refine Meets.andThen hx.attempt fun outcome => ?_
  cases outcome with
  | ok a => exact meets_pure fun _ _ h => h
  | error err =>
    refine Meets.andThen (meets_perform (M := fun _ => StrandedOnly before path err)
      fun past s answer s' ⟨htidy, hworking, _⟩ henv => ?_)
      fun _ => meets_throw fun _ _ h => h
    cases answer with
    | none =>
      obtain rfl := henv
      exact ⟨hworking.aside.atomic _, fun hsame => absurd hsame hworking.not_sameNames,
        fun htidy' => absurd trivial (tidy_append.mp htidy').2⟩
    | some u =>
      obtain rfl := henv
      have haside := hworking.aside.change (.unlink tmp.path) hworking.other
      exact ⟨haside.atomic _, fun _ => tidy_append.mpr ⟨htidy, id⟩, fun _ => hworking.removed⟩

/-- The new file has its place. -/
def InPlace (before : Directory) (path : Path) (tmp : NamedTempFile) (content : Content) :
    Condition fileSignature Directory :=
  fun past s => Tidy past ∧ SameNames path.fileName before s ∧
    Placed path.fileName tmp.file content before s

theorem meets_rename : Meets (directory IsTemporary) (Keeps before path contents mode)
    (WorkingOn before path tmp fun s => Holds tmp ⟨contents, permissionBits mode⟩ s ∧
      s.dirty tmp.file = false) (rename tmp.path path.fileName).run
    (Returns (StrandedOnly before path) fun _ =>
      InPlace before path tmp ⟨contents, permissionBits mode⟩) := by
  refine meets_ask fun past s answer s' ⟨htidy, hworking, hholds, hsynced⟩ henv => ?_
  cases answer with
  | none =>
    obtain rfl := henv
    exact ⟨hworking.aside.atomic _, fun hsame => absurd hsame hworking.not_sameNames,
      fun htidy' => absurd trivial (tidy_append.mp htidy').2⟩
  | some u =>
    obtain ⟨_, node, hnode, rfl⟩ := henv
    obtain rfl : tmp.file = node := Option.some.inj (hworking.named.symm.trans hnode)
    have hplaced := hworking.aside.place tmp.path hholds hsynced
    exact ⟨hplaced.atomic, tidy_append.mpr ⟨htidy, id⟩, hworking.renamed, hplaced⟩

theorem meets_fsyncDir : Meets (directory IsTemporary) (Keeps before path contents mode)
    (InPlace before path tmp ⟨contents, permissionBits mode⟩) fsyncDir.run
    (Returns (StrandedOnly before path) fun _ _ s =>
      Durable path.fileName (written contents mode) s) := by
  have hopen : Meets (directory IsTemporary) (Keeps before path contents mode)
      (InPlace before path tmp ⟨contents, permissionBits mode⟩) (ask .openDirectory).run
      (Returns (StrandedOnly before path) fun _ =>
        InPlace before path tmp ⟨contents, permissionBits mode⟩) := by
    refine meets_perform fun past s answer s' ⟨htidy, hsame, hplaced⟩ henv => ?_
    obtain rfl : s' = s := by
      cases answer <;> exact henv
    exact ⟨hplaced.atomic, tidy_append.mpr ⟨htidy, id⟩, hsame, hplaced⟩
  refine hopen.andThen fun opened => ?_
  refine meets_ofExcept_bind (fun past s _ ⟨htidy, hsame, _⟩ _ => ⟨fun _ => htidy, fun _ => hsame⟩)
    fun _ _ => ?_
  refine meets_ask fun past s answer s' ⟨htidy, hsame, hplaced⟩ henv => ?_
  have htidy' : Tidy (past ++ [⟨s, .syncDirectory, answer, s'⟩]) := tidy_append.mpr ⟨htidy, id⟩
  cases answer with
  | none =>
    obtain rfl := henv
    exact ⟨hplaced.atomic, fun _ => htidy', fun _ => hsame⟩
  | some u =>
    obtain rfl := henv
    obtain ⟨hstill, hdurable⟩ := hplaced.syncDirectory
    exact ⟨hstill.atomic, hdurable⟩

/-- A write keeps the target whole, and only strands a temporary file when it could not rename or
remove it. -/
theorem meets_secureWrite (htarget : ¬ IsTemporary path.fileName) : Meets (directory IsTemporary)
    (Keeps before path contents mode) (fun past s => Tidy past ∧ s = before)
    (secureWrite path contents mode).run (Returns (StrandedOnly before path) fun _ _ s =>
      Durable path.fileName (written contents mode) s) := by
  refine meets_ofExcept_bind (fun past s _ ⟨htidy, hs⟩ _ =>
    ⟨fun _ => htidy, fun _ _ _ => hs ▸ rfl⟩) fun parent hparent => ?_
  refine Meets.andThen (meets_newIn htarget) fun tmp => ?_
  refine meets_exists fun old => ?_
  have hprepared : Meets (directory IsTemporary) (Keeps before path contents mode)
      (WorkingOn before path tmp (Holds tmp ⟨[], old⟩)) (dropping tmp do
        setPermissions tmp.file mode
        writeAll tmp.file contents
        syncAll tmp.file
        keep tmp.path).run
      (Returns (StrandedOnly before path) fun _ => WorkingOn before path tmp fun s =>
        Holds tmp ⟨contents, permissionBits mode⟩ s ∧ s.dirty tmp.file = false) :=
    meets_dropping (Meets.andThen meets_setPermissions fun _ => Meets.andThen meets_writeAll
      fun _ => Meets.andThen meets_syncAll fun _ => meets_keep)
  refine hprepared.andThen fun _ => ?_
  refine meets_ofExcept_bind (fun past s e _ herror => ?_) fun _ _ => ?_
  · cases hparent.symm.trans herror
  · exact Meets.andThen meets_rename fun _ => meets_fsyncDir

end Course

section Crashes

variable {IsTemporary : Text → Prop} {path : Path} {contents : Bytes} {mode : UInt32}
  {s s' : Directory} {trace : List FileEvent} {result : Option (Except Error Unit)}

theorem secureWrite_atomic (htarget : ¬ IsTemporary path.fileName)
    (h : Exec (directory IsTemporary) (secureWrite path contents mode).run s trace result s') :
    Atomic path.fileName (written contents mode) s s' := by
  have hevents := (meets_secureWrite htarget [] s trace result s'
    ⟨List.forall_mem_nil _, rfl⟩ h).1.forall_mem fun _ e he => he
  exact (h.invariant (I := Atomic path.fileName (written contents mode) s)
    (fun e he _ => hevents e he) (atomic_refl _)).1

/-- Wherever a write stops, the target is what it was or the new file: for a reader now, and for
whoever comes after a crash. After an Ok every crash finds the new file. -/
theorem secureWrite_crash_atomic (htarget : ¬ IsTemporary path.fileName)
    (h : Exec (directory IsTemporary) (secureWrite path contents mode).run s trace result s') :
    Atomic path.fileName (written contents mode) s s' ∧
    (Settled path.fileName s → ∀ r, s'.AfterCrash r → r.lookup path.fileName =
      s.lookup path.fileName ∨ r.lookup path.fileName = some (written contents mode)) ∧
    (result = some (.ok ()) → Durable path.fileName (written contents mode) s') := by
  have hatomic := secureWrite_atomic htarget h
  refine ⟨hatomic, fun hsettled r hr => hatomic.of_settled hsettled hr, fun hok => ?_⟩
  exact (meets_secureWrite htarget [] s trace result s' ⟨List.forall_mem_nil _, rfl⟩ h).2 _ hok

/-- Which errors a write can fail with. -/
theorem secureWrite_avoids {e : Error} (hio : .io ≠ e) (hpath : .invalidPath ≠ e) :
    Avoids (directory IsTemporary) e (secureWrite path contents mode) := by
  have hstep : ∀ {op : FileOp} {α : Type} (f : op.Answer → Option α),
      Avoids (directory IsTemporary) e
        (ask op >>= fun answer => Action.ofExcept (okOr (f answer) .io)) :=
    fun f => avoids_perform_bind fun _ _ _ _ => avoids_ofExcept (okOr_ne_error hio)
  have hparent : Avoids (directory IsTemporary) e (Action.ofExcept (parentOf path)) :=
    avoids_ofExcept (okOr_ne_error hpath)
  refine Avoids.bind hparent fun _ => Avoids.bind (hstep _) fun tmp => Avoids.bind ?_ fun _ => ?_
  · refine avoids_attempt_bind ?_ fun outcome houtcome => ?_
    · exact Avoids.bind (hstep _) fun _ => Avoids.bind (hstep _) fun _ =>
        Avoids.bind (hstep _) fun _ => hstep _
    · cases outcome with
      | ok u => exact avoids_pure
      | error err =>
        exact avoids_perform_bind fun _ _ _ _ => avoids_throw fun heq => houtcome (heq ▸ rfl)
  · refine Avoids.bind hparent fun _ => Avoids.bind (hstep _) fun _ => ?_
    refine avoids_perform_bind fun _ _ _ _ => ?_
    exact Avoids.bind (avoids_ofExcept (okOr_ne_error hio)) fun _ => hstep _

/-- A finished write does what the machine of an attempt to enroll expects of it. -/
theorem secureWrite_writes (htarget : ¬ IsTemporary path.fileName) {answer : Except Error Unit}
    (h : Exec (directory IsTemporary) (secureWrite path contents mode).run s trace (some answer)
      s') : answer = .ok () ∧ s'.lookup path.fileName = some (written contents mode) ∨
    EnrollmentRuns.WriteFails answer ∧ (s'.lookup path.fileName = some (written contents mode) ∨
      s'.lookup path.fileName = s.lookup path.fileName) := by
  obtain ⟨hatomic, _, hdurable⟩ := secureWrite_crash_atomic htarget h
  cases answer with
  | ok u => exact Or.inl ⟨rfl, (hdurable rfl).1⟩
  | error e =>
    refine Or.inr ⟨?_, hatomic.read.symm⟩
    by_contra hother
    obtain ⟨hio, hpath⟩ := not_or.mp hother
    exact secureWrite_avoids (fun heq => hio (heq ▸ rfl)) (fun heq => hpath (heq ▸ rfl)) _ _ _ h

end Crashes

theorem sameNames_trans {target : Text} {s₁ s₂ s₃ : Directory} (h : SameNames target s₁ s₂)
    (h' : SameNames target s₂ s₃) : SameNames target s₁ s₃ :=
  fun name hname => (h' name hname).trans (h name hname)

/-- A write that returned an error left the names alone just when it neither failed to rename the
temporary file nor to remove it. So do any number of such writes. -/
theorem failed_write_same_names_iff {IsTemporary : Text → Prop} {path : Path}
    (htarget : ¬ IsTemporary path.fileName) :
    (∀ contents mode s s' trace e,
      Exec (directory IsTemporary) (secureWrite path contents mode).run s trace
        (some (.error e)) s' →
        (SameNames path.fileName s s' ↔ ∀ event ∈ trace, ¬ Strands event)) ∧
    (∀ s s' passes, RunOf (directory IsTemporary)
      (fun program => ∃ contents mode, program = (secureWrite path contents mode).run) s passes s' →
        (∀ q ∈ passes, ∃ e, q.result = some (.error e)) →
        (∀ q ∈ passes, ∀ event ∈ q.trace, ¬ Strands event) → SameNames path.fileName s s') := by
  have hsingle : ∀ contents mode s s' trace e,
      Exec (directory IsTemporary) (secureWrite path contents mode).run s trace
        (some (.error e)) s' →
        (SameNames path.fileName s s' ↔ ∀ event ∈ trace, ¬ Strands event) :=
    fun contents mode s s' trace e hexec => (meets_secureWrite htarget [] s trace _ s'
      ⟨List.forall_mem_nil _, rfl⟩ hexec).2 _ rfl
  refine ⟨hsingle, fun s s' passes hrun herrors htidy => ?_⟩
  refine (hrun.invariant (I := SameNames path.fileName s)
    (C := fun q => (∃ e, q.result = some (.error e)) ∧ ∀ event ∈ q.trace, ¬ Strands event)
    (fun program q hprogram hexec hq hsame => ?_) (fun q hq => ⟨herrors q hq, htidy q hq⟩)
    fun _ _ => rfl).1
  obtain ⟨contents, mode, rfl⟩ := hprogram
  obtain ⟨⟨e, herror⟩, hnever⟩ := hq
  rw [herror] at hexec
  exact sameNames_trans hsame ((hsingle _ _ _ _ _ _ hexec).mpr hnever)

/-- The names of temporary files. -/
def IsTempName (name : Text) : Prop :=
  name.take 4 = ['.', 't', 'm', 'p'] ∧ name.length = 10 ∧ ∀ c ∈ name.drop 4, c.isAlphanum = true

def samplePath : Path := ⟨some ['d'], ['f']⟩

def sampleTemp : NamedTempFile := ⟨1, ['.', 't', 'm', 'p', 'A', 'b', 'C', '1', '2', '3']⟩

/-- The target is missing, or stands for a directory. -/
def startWith (target : Option Nat) : Directory where
  nodes _ := .directory
  dirty _ := false
  disk := Function.update (fun _ => none) samplePath.fileName target
  pending := []

/-- The directory in front of the sync of the temporary file. -/
def sampleWritten (target : Option Nat) : Directory :=
  (((startWith target).create sampleTemp.path 1 ⟨[], 0o600⟩).setContent 1
    ⟨[], permissionBits 0o644⟩).setContent 1 ⟨[104], permissionBits 0o644⟩

theorem sample_target : ¬ IsTempName samplePath.fileName := by
  rintro ⟨htake, _⟩
  cases htake

/-- What is left of the write at that point. -/
def sampleRest : FileAction Unit := do
  dropping sampleTemp do
    syncAll 1
    keep sampleTemp.path
  atomicReplace sampleTemp.path samplePath

theorem sample_written (target : Option Nat) (hfree : target ≠ some 1) {s' : Directory}
    {rest : List FileEvent} {result : Option (Except Error Unit)}
    (h : Exec (directory IsTempName) sampleRest.run (sampleWritten target) rest result s') :
    ∃ first, (∀ event ∈ first, ¬ Strands event) ∧ Exec (directory IsTempName)
      (secureWrite samplePath [104] 0o644).run (startWith target) (first ++ rest) result s' := by
  have hcreate : directory IsTempName (startWith target) .createTemporary (some sampleTemp)
      ((startWith target).create sampleTemp.path 1 ⟨[], 0o600⟩) := by
    refine ⟨⟨rfl, rfl, List.all_eq_true.mp (by decide)⟩, rfl,
      ⟨fun name => ?_, List.forall_mem_nil _⟩, _, rfl⟩
    by_cases hname : name = samplePath.fileName
    · subst hname
      simpa [startWith, sampleTemp] using hfree
    · simp [startWith, hname]
  have hpermissions : directory IsTempName ((startWith target).create sampleTemp.path 1
      ⟨[], 0o600⟩) (.setPermissions 1 0o644) (some ()) (((startWith target).create sampleTemp.path 1
      ⟨[], 0o600⟩).setContent 1 ⟨[], permissionBits 0o644⟩) :=
    ⟨⟨[], 0o600⟩, rfl, rfl⟩
  have hwrite : directory IsTempName (((startWith target).create sampleTemp.path 1
      ⟨[], 0o600⟩).setContent 1 ⟨[], permissionBits 0o644⟩) (.writeAll 1 [104]) (some ())
      (sampleWritten target) := ⟨⟨[], permissionBits 0o644⟩, rfl, rfl⟩
  refine ⟨[_, _, _], ?_, Exec.step hcreate (Exec.step hpermissions (Exec.step hwrite h))⟩
  simp [Strands]

def sampleSynced (target : Option Nat) : Directory := (sampleWritten target).syncFile 1

def sampleRenamed : Directory :=
  (sampleSynced none).change (.rename sampleTemp.path samplePath.fileName 1)

/-- The file of an undisturbed write is there for good. -/
theorem secureWrite_crash_atomic_sample : ∃ s', Durable samplePath.fileName
    (written [104] 0o644) s' ∧ (startWith none).lookup samplePath.fileName = none := by
  have hsync : directory IsTempName (sampleWritten none) (.syncAll 1) (some ())
      (sampleSynced none) := rfl
  have hkeep : directory IsTempName (sampleSynced none) (.keep sampleTemp.path) (some ())
      (sampleSynced none) := rfl
  have hrename : directory IsTempName (sampleSynced none)
      (.rename sampleTemp.path samplePath.fileName) (some ()) sampleRenamed := by
    refine ⟨?_, 1, rfl, rfl⟩
    have hmissing : (sampleSynced none).lookup samplePath.fileName = none := rfl
    rw [hmissing]
    exact nofun
  have hopen : directory IsTempName sampleRenamed .openDirectory (some ()) sampleRenamed := rfl
  have hsyncDirectory : directory IsTempName sampleRenamed .syncDirectory (some ())
      sampleRenamed.syncDirectory := rfl
  obtain ⟨first, _, hexec⟩ := sample_written none nofun
    (Exec.step hsync (Exec.step hkeep (Exec.step hrename (Exec.step hopen
      (Exec.step hsyncDirectory (Exec.finished _ _))))))
  exact ⟨_, (secureWrite_crash_atomic sample_target hexec).2.2 rfl, rfl⟩

/-- A write whose sync fails removes its temporary file. -/
theorem failed_write_same_names_iff_sample : ∃ trace s', Exec (directory IsTempName)
    (secureWrite samplePath [104] 0o644).run (startWith none) trace (some (.error .io)) s' ∧
      SameNames samplePath.fileName (startWith none) s' := by
  have hsync : directory IsTempName (sampleWritten none) (.syncAll 1) none
      (sampleWritten none) := rfl
  have hremove : directory IsTempName (sampleWritten none) (.removeFile sampleTemp.path) (some ())
      ((sampleWritten none).change (.unlink sampleTemp.path)) := rfl
  obtain ⟨first, hfirst, hexec⟩ := sample_written none nofun
    (Exec.step hsync (Exec.step hremove (Exec.finished _ _)))
  refine ⟨_, _, hexec, ((failed_write_same_names_iff sample_target).1 _ _ _ _ _ _ hexec).mpr ?_⟩
  intro event hevent
  rcases List.mem_append.mp hevent with hevent | hevent
  · exact hfirst event hevent
  rcases List.mem_cons.mp hevent with rfl | hevent
  · exact id
  · obtain rfl := List.mem_singleton.mp hevent
    exact id

/-- A write to the name of a directory fails when it renames, and leaves its temporary file. -/
theorem directory_target_strands : ¬ ∀ (IsTemporary : Text → Prop) (path : Path),
    ¬ IsTemporary path.fileName → ∀ contents mode s s' trace e,
      Exec (directory IsTemporary) (secureWrite path contents mode).run s trace
        (some (.error e)) s' →
        SameNames path.fileName s s' := by
  intro h
  have hsync : directory IsTempName (sampleWritten (some 0)) (.syncAll 1) (some ())
      (sampleSynced (some 0)) := rfl
  have hkeep : directory IsTempName (sampleSynced (some 0)) (.keep sampleTemp.path) (some ())
      (sampleSynced (some 0)) := rfl
  have hrename : directory IsTempName (sampleSynced (some 0))
      (.rename sampleTemp.path samplePath.fileName) none (sampleSynced (some 0)) := rfl
  obtain ⟨first, _, hexec⟩ := sample_written (some 0) (by decide)
    (Exec.step hsync (Exec.step hkeep (Exec.step hrename (Exec.finished _ _))))
  have hsame := h IsTempName samplePath sample_target _ _ _ _ _ _ hexec sampleTemp.path (by decide)
  cases hsame

end MayflyAgent.SecureWrites
