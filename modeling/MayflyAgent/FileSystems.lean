import Mathlib.Logic.Function.Basic
import Mathlib.Data.List.Basic

/-!
A directory on a disk, and what a crash leaves of it. Changes to a file are on the disk once the
file was synced, changes to the directory once the directory was. Up to then a crash may keep any
of the changes to the directory and drop the others, and leave any content in a file. Nothing in
this module depends on what names and contents are.
-/
namespace MayflyAgent.FileSystems

variable {N C : Type}

/-- What a name stands for. -/
inductive Node (N C : Type)
  | file (content : C)
  | symlink (target : N)
  | directory

/-- A change to the directory, made in one step. -/
inductive Change (N : Type)
  | link (name : N) (node : Nat)
  | unlink (name : N)
  | rename (src dst : N) (node : Nat)

abbrev Entries (N : Type) := N → Option Nat

/-- The node that a change gives a name to. -/
def Change.node : Change N → Option Nat
  | .link _ node => some node
  | .unlink _ => none
  | .rename _ _ node => some node

structure FileSystem (N C : Type) where
  nodes : Nat → Node N C
  /-- The files with changes that are not on the disk yet. -/
  dirty : Nat → Bool
  /-- The entries on the disk, and the changes to them that are not there yet. -/
  disk : Entries N
  pending : List (Change N)

section Entries

variable [DecidableEq N]

def Change.apply (entries : Entries N) : Change N → Entries N
  | .link name node => Function.update entries name (some node)
  | .unlink name => Function.update entries name none
  | .rename src dst node => Function.update (Function.update entries src none) dst (some node)

/-- The names that a change is about. -/
def Change.Touches (name : N) : Change N → Prop
  | .link linked _ => linked = name
  | .unlink unlinked => unlinked = name
  | .rename src dst _ => src = name ∨ dst = name

theorem apply_other {entries : Entries N} {change : Change N} {name : N}
    (h : ¬ change.Touches name) : change.apply entries name = entries name := by
  cases change with
  | link linked node => exact Function.update_of_ne (Ne.symm h) ..
  | unlink unlinked => exact Function.update_of_ne (Ne.symm h) ..
  | rename src dst node =>
    obtain ⟨hsrc, hdst⟩ := not_or.mp h
    exact (Function.update_of_ne (Ne.symm hdst) ..).trans (Function.update_of_ne (Ne.symm hsrc) ..)

namespace FileSystem

def entries (s : FileSystem N C) : Entries N := s.pending.foldl Change.apply s.disk

/-- What a process finds under a name. -/
def lookup (s : FileSystem N C) (name : N) : Option (Node N C) := (s.entries name).map s.nodes

def create (s : FileSystem N C) (name : N) (node : Nat) (content : C) : FileSystem N C :=
  { s with
    nodes := Function.update s.nodes node (.file content)
    dirty := Function.update s.dirty node true
    pending := s.pending ++ [.link name node] }

def setContent (s : FileSystem N C) (node : Nat) (content : C) : FileSystem N C :=
  { s with
    nodes := Function.update s.nodes node (.file content)
    dirty := Function.update s.dirty node true }

def syncFile (s : FileSystem N C) (node : Nat) : FileSystem N C :=
  { s with dirty := Function.update s.dirty node false }

def change (s : FileSystem N C) (change : Change N) : FileSystem N C :=
  { s with pending := s.pending ++ [change] }

def syncDirectory (s : FileSystem N C) : FileSystem N C :=
  { s with
    disk := s.entries
    pending := [] }

/-- Entries that a crash may leave. -/
def Recoverable (s : FileSystem N C) (entries : Entries N) : Prop :=
  ∃ kept, List.Sublist kept s.pending ∧ entries = kept.foldl Change.apply s.disk

/-- `r` is found after a crash in `s`. -/
structure AfterCrash (s r : FileSystem N C) : Prop where
  entries : s.Recoverable r.disk
  settled : r.pending = []
  clean : ∀ node, s.dirty node = false → r.nodes node = s.nodes node
  special : ∀ node, (∀ content, s.nodes node ≠ .file content) → r.nodes node = s.nodes node
  kind : ∀ node content, s.nodes node = .file content → ∃ content', r.nodes node = .file content'

/-- No entry stands for the node, now or after a crash. -/
def Unused (s : FileSystem N C) (node : Nat) : Prop :=
  (∀ name, s.disk name ≠ some node) ∧ ∀ change ∈ s.pending, change.node ≠ some node

end FileSystem

open FileSystem

variable {s r : FileSystem N C}

@[simp] theorem entries_change (s : FileSystem N C) (change : Change N) :
    (s.change change).entries = change.apply s.entries := by
  simp [entries, FileSystem.change]

@[simp] theorem entries_create (s : FileSystem N C) (name : N) (node : Nat) (content : C) :
    (s.create name node content).entries = Function.update s.entries name (some node) :=
  entries_change s (.link name node)

@[simp] theorem entries_setContent (s : FileSystem N C) (node : Nat) (content : C) :
    (s.setContent node content).entries = s.entries := rfl

@[simp] theorem entries_syncFile (s : FileSystem N C) (node : Nat) :
    (s.syncFile node).entries = s.entries := rfl

@[simp] theorem entries_syncDirectory (s : FileSystem N C) :
    s.syncDirectory.entries = s.entries := rfl

/-- A crash may drop the last change, or keep it on top of what it keeps of the others. -/
theorem recoverable_change {change : Change N} {entries : Entries N} :
    (s.change change).Recoverable entries ↔ s.Recoverable entries ∨
      ∃ earlier, s.Recoverable earlier ∧ entries = change.apply earlier := by
  constructor
  · rintro ⟨kept, hkept, rfl⟩
    obtain ⟨front, back, rfl, hfront, hback⟩ := List.sublist_append_iff.mp hkept
    rcases List.sublist_singleton.mp hback with rfl | rfl
    · exact Or.inl ⟨front, hfront, by simp [FileSystem.change]⟩
    · exact Or.inr ⟨_, ⟨front, hfront, rfl⟩, by simp [FileSystem.change]⟩
  · rintro (⟨kept, hkept, rfl⟩ | ⟨_, ⟨kept, hkept, rfl⟩, rfl⟩)
    · exact ⟨kept, hkept.trans (List.sublist_append_left ..), rfl⟩
    · exact ⟨kept ++ [change], hkept.append (List.Sublist.refl _), by simp [FileSystem.change]⟩

theorem recoverable_syncDirectory {entries : Entries N} :
    s.syncDirectory.Recoverable entries ↔ entries = s.entries := by
  simp [Recoverable, FileSystem.syncDirectory]

theorem unused_foldl {changes : List (Change N)} {disk : Entries N} {node : Nat}
    (hdisk : ∀ name, disk name ≠ some node)
    (hchanges : ∀ change ∈ changes, change.node ≠ some node) (name : N) :
    changes.foldl Change.apply disk name ≠ some node := by
  induction changes generalizing disk with
  | nil => exact hdisk name
  | cons change changes ih =>
    obtain ⟨hchange, hrest⟩ := List.forall_mem_cons.mp hchanges
    refine ih (fun other => ?_) hrest
    cases change with
    | link linked i =>
      by_cases h : other = linked
      · subst h
        simpa [Change.apply, Change.node] using hchange
      · simpa [Change.apply, h] using hdisk other
    | unlink unlinked =>
      by_cases h : other = unlinked
      · subst h
        simp [Change.apply]
      · simpa [Change.apply, h] using hdisk other
    | rename src dst i =>
      by_cases h : other = dst
      · subst h
        simpa [Change.apply, Change.node] using hchange
      by_cases h' : other = src
      · subst h'
        simp [Change.apply, h]
      · simpa [Change.apply, h, h'] using hdisk other

theorem FileSystem.Unused.recoverable {node : Nat} (h : s.Unused node) {entries : Entries N}
    (hentries : s.Recoverable entries) (name : N) : entries name ≠ some node := by
  obtain ⟨kept, hkept, rfl⟩ := hentries
  exact unused_foldl h.1 (fun change hchange => h.2 change (hkept.subset hchange)) name

theorem FileSystem.Unused.entries {node : Nat} (h : s.Unused node) (name : N) :
    s.entries name ≠ some node := unused_foldl h.1 h.2 name

/-- Readers and crashes find the name as it was before, or the new file. -/
structure Atomic (name : N) (new : Node N C) (before after : FileSystem N C) : Prop where
  read : after.lookup name = before.lookup name ∨ after.lookup name = some new
  recovered : ∀ r, AfterCrash after r → r.lookup name = some new ∨
    ∃ r', AfterCrash before r' ∧ r.lookup name = r'.lookup name

/-- The new file is there for good. -/
def Durable (name : N) (new : Node N C) (s : FileSystem N C) : Prop :=
  s.lookup name = some new ∧ ∀ r, AfterCrash s r → r.lookup name = some new

/-- A crash would not change what the name stands for. -/
def Settled (name : N) (s : FileSystem N C) : Prop :=
  ∀ r, AfterCrash s r → r.lookup name = s.lookup name

theorem Atomic.of_settled {name : N} {new : Node N C} {before after : FileSystem N C}
    (h : Atomic name new before after) (hbefore : Settled name before)
    (hr : AfterCrash after r) : r.lookup name = before.lookup name ∨ r.lookup name = some new := by
  rcases h.recovered r hr with hnew | ⟨r', hr', hsame⟩
  · exact Or.inr hnew
  · exact Or.inl (hsame.trans (hbefore r' hr'))

/-- Work on a new node, which the name does not stand for yet. -/
structure Aside (name : N) (node : Nat) (before after : FileSystem N C) : Prop where
  unused : before.Unused node
  nodes : ∀ i, i ≠ node → after.nodes i = before.nodes i ∧ after.dirty i = before.dirty i
  current : after.entries name = before.entries name
  recoverable : ∀ entries, after.Recoverable entries →
    ∃ entries', before.Recoverable entries' ∧ entries name = entries' name

/-- The name stands for the new node, or will after some crashes. -/
structure Placed (name : N) (node : Nat) (content : C) (before after : FileSystem N C) : Prop where
  unused : before.Unused node
  nodes : ∀ i, i ≠ node → after.nodes i = before.nodes i ∧ after.dirty i = before.dirty i
  file : after.nodes node = .file content
  synced : after.dirty node = false
  current : after.entries name = some node
  recoverable : ∀ entries, after.Recoverable entries → entries name = some node ∨
    ∃ entries', before.Recoverable entries' ∧ entries name = entries' name

section Replacing

variable {name : N} {node : Nat} {content : C} {before after : FileSystem N C}

theorem aside_refl (h : before.Unused node) : Aside name node before before :=
  ⟨h, fun _ _ => ⟨rfl, rfl⟩, rfl, fun entries hentries => ⟨entries, hentries, rfl⟩⟩

theorem Aside.setContent (h : Aside name node before after) (content : C) :
    Aside name node before (after.setContent node content) where
  unused := h.unused
  nodes i hi := by
    simpa only [FileSystem.setContent, Function.update_of_ne hi] using h.nodes i hi
  current := h.current
  recoverable := h.recoverable

theorem Aside.syncFile (h : Aside name node before after) :
    Aside name node before (after.syncFile node) where
  unused := h.unused
  nodes i hi := by
    simpa only [FileSystem.syncFile, Function.update_of_ne hi] using h.nodes i hi
  current := h.current
  recoverable := h.recoverable

theorem Aside.change (h : Aside name node before after) (change : Change N)
    (hchange : ¬ change.Touches name) : Aside name node before (after.change change) where
  unused := h.unused
  nodes := h.nodes
  current := by rw [entries_change, apply_other hchange, h.current]
  recoverable entries hentries := by
    rcases recoverable_change.mp hentries with hkept | ⟨earlier, hearlier, rfl⟩
    · exact h.recoverable entries hkept
    · rw [apply_other hchange]
      exact h.recoverable earlier hearlier

theorem Aside.create (h : Aside name node before after) {other : N} (hother : other ≠ name)
    (content : C) : Aside name node before (after.create other node content) :=
  (h.change (.link other node) hother).setContent content

/-- Renaming the new file to the name. -/
theorem Aside.place (h : Aside name node before after) (src : N)
    (hfile : after.nodes node = .file content) (hsynced : after.dirty node = false) :
    Placed name node content before (after.change (.rename src name node)) where
  unused := h.unused
  nodes := h.nodes
  file := hfile
  synced := hsynced
  current := by
    rw [entries_change]
    exact Function.update_self ..
  recoverable entries hentries := by
    rcases recoverable_change.mp hentries with hkept | ⟨earlier, hearlier, rfl⟩
    · exact Or.inr (h.recoverable entries hkept)
    · exact Or.inl (Function.update_self ..)

/-- Nodes that both file systems have in common survive a crash in the same way. -/
theorem recovered_before (hunused : before.Unused node)
    (hnodes : ∀ i, i ≠ node → after.nodes i = before.nodes i ∧ after.dirty i = before.dirty i)
    (hr : AfterCrash after r) {entries : Entries N} (hentries : before.Recoverable entries)
    (hname : r.disk name = entries name) :
    ∃ r', AfterCrash before r' ∧ r.lookup name = r'.lookup name := by
  let r' : FileSystem N C :=
    { r with
      nodes := Function.update r.nodes node (before.nodes node)
      disk := entries }
  have hown : r'.nodes node = before.nodes node := Function.update_self ..
  have hother : ∀ i, i ≠ node → r'.nodes i = r.nodes i := fun i hi => Function.update_of_ne hi ..
  refine ⟨r', ⟨hentries, hr.settled, fun i hclean => ?_, fun i hspecial => ?_,
    fun i content hfile => ?_⟩, ?_⟩
  · by_cases hi : i = node
    · rw [hi, hown]
    · obtain ⟨hsame, hdirty⟩ := hnodes i hi
      rw [hother i hi, hr.clean i (hdirty.trans hclean), hsame]
  · by_cases hi : i = node
    · rw [hi, hown]
    · obtain ⟨hsame, _⟩ := hnodes i hi
      rw [hother i hi, hr.special i (fun content => hsame ▸ hspecial content), hsame]
  · by_cases hi : i = node
    · exact ⟨content, by rw [hi, hown, ← hi, hfile]⟩
    · rw [hother i hi]
      exact hr.kind i content ((hnodes i hi).1.trans hfile)
  · have hne := hunused.recoverable hentries name
    have hlookup : r'.lookup name = (entries name).map r'.nodes := by
      simp [FileSystem.lookup, FileSystem.entries, r', hr.settled]
    rw [hlookup]
    simp only [FileSystem.lookup, FileSystem.entries, hr.settled, List.foldl_nil, hname]
    cases hentry : entries name with
    | none => rfl
    | some i =>
      have hi : i ≠ node := fun heq => hne (by rw [hentry, heq])
      exact congrArg some (hother i hi).symm

theorem lookup_before (hunused : before.Unused node)
    (hnodes : ∀ i, i ≠ node → after.nodes i = before.nodes i ∧ after.dirty i = before.dirty i)
    (hname : after.entries name = before.entries name) :
    after.lookup name = before.lookup name := by
  have hne := hunused.entries name
  simp only [lookup, hname]
  cases hentry : before.entries name with
  | none => rfl
  | some i =>
    have hi : i ≠ node := fun heq => hne (by rw [hentry, heq])
    simp [(hnodes i hi).1]

theorem Aside.atomic (h : Aside name node before after) (new : Node N C) :
    Atomic name new before after where
  read := Or.inl (lookup_before h.unused h.nodes h.current)
  recovered r hr := by
    obtain ⟨entries, hentries, hname⟩ := h.recoverable r.disk hr.entries
    exact Or.inr (recovered_before h.unused h.nodes hr hentries hname)

theorem Placed.lookup (h : Placed name node content before after) :
    after.lookup name = some (.file content) := by
  simp [FileSystem.lookup, h.current, h.file]

theorem recovered_new (h : Placed name node content before after) (hr : AfterCrash after r)
    (hname : r.disk name = some node) : r.lookup name = some (.file content) := by
  simp [FileSystem.lookup, FileSystem.entries, hr.settled, hname, hr.clean node h.synced, h.file]

theorem Placed.atomic (h : Placed name node content before after) :
    Atomic name (.file content) before after where
  read := Or.inr h.lookup
  recovered r hr := by
    rcases h.recoverable r.disk hr.entries with hname | ⟨entries, hentries, hname⟩
    · exact Or.inl (recovered_new h hr hname)
    · exact Or.inr (recovered_before h.unused h.nodes hr hentries hname)

/-- Once the directory is synced, every crash finds the new file. -/
theorem Placed.syncDirectory (h : Placed name node content before after) :
    Placed name node content before after.syncDirectory ∧
      Durable name (.file content) after.syncDirectory := by
  have hrecoverable : ∀ entries, after.syncDirectory.Recoverable entries →
      entries name = some node := by
    intro entries hentries
    rw [recoverable_syncDirectory.mp hentries]
    exact h.current
  have hplaced : Placed name node content before after.syncDirectory :=
    ⟨h.unused, h.nodes, h.file, h.synced, h.current, fun entries hentries =>
      Or.inl (hrecoverable entries hentries)⟩
  exact ⟨hplaced, hplaced.lookup, fun r hr =>
    recovered_new hplaced hr (hrecoverable r.disk hr.entries)⟩

theorem atomic_refl (new : Node N C) : Atomic name new before before :=
  ⟨Or.inl rfl, fun r hr => Or.inr ⟨r, hr, rfl⟩⟩

end Replacing

end Entries

end MayflyAgent.FileSystems
