import MayflyAgent.RustText
import MayflyAgent.Checks
import MayflyAgent.Errors
import Mathlib.Logic.Function.Basic

/-!
The agent's state files and how their contents are read. A file is missing, holds
bytes, or cannot be read. Readers trim, take blank files for missing ones and
parse the generation; what the writers store is read back exactly.
-/
namespace MayflyAgent.StateFiles

open RustText Words Errors

/-- The files under the state directory, one for each path of the service. -/
inductive StateFile
  | generation
  | fingerprint
  | signingKey
  | lastSync
  | lastSuccess
  deriving DecidableEq

inductive Entry
  | missing
  | regular (bytes : Bytes)
  | unreadable
  deriving DecidableEq

abbrev StateDir := StateFile → Entry

def StateDir.empty : StateDir := fun _ => .missing

/-- The effect of a completed `secure_write`. -/
def StateDir.install (dir : StateDir) (file : StateFile) (contents : Bytes) : StateDir :=
  Function.update dir file (.regular contents)

@[simp] theorem install_same (dir : StateDir) (file : StateFile) (contents : Bytes) :
    dir.install file contents file = .regular contents := Function.update_self ..

@[simp] theorem install_other (dir : StateDir) {file other : StateFile} (contents : Bytes)
    (h : other ≠ file) : dir.install file contents other = dir other :=
  Function.update_of_ne h ..

/-- How `std::fs::read` fails. -/
inductive ReadError
  | notFound
  | other
  deriving DecidableEq

def readEntry : Entry → Except ReadError Bytes
  | .missing => .error .notFound
  | .regular bytes => .ok bytes
  | .unreadable => .error .other

/-! `read_optional`, `read_optional_string` and `read_generation`, as functions of what
reading the file gave. -/

def optionalOf (answer : Except ReadError Bytes) : Except Error (Option Bytes) :=
  match answer with
  | .ok bytes => .ok (some bytes)
  | .error .notFound => .ok none
  | .error .other => .error .io

def stringOf (answer : Except ReadError Bytes) : Except Error (Option Text) := do
  match ← optionalOf answer with
  | none => .ok none
  | some bytes =>
    match decodeUtf8 bytes with
    | none => .error .machineRecordInvalid
    | some text =>
      let trimmed := trimText text
      if trimmed = [] then .ok none else .ok (some trimmed)

def generationOf (answer : Except ReadError Bytes) : Except Error (Option UInt64) := do
  match ← stringOf answer with
  | none => .ok none
  | some text =>
    match parseU64 (trimText text) with
    | none => .error .machineRecordInvalid
    | some value => .ok (some value)

structure PersistedState where
  generation : Option UInt64
  fingerprint : Option Text
  signingKey : Option Text
  deriving DecidableEq

def StateDir.readString (dir : StateDir) (file : StateFile) : Except Error (Option Text) :=
  stringOf (readEntry (dir file))

def StateDir.readGeneration (dir : StateDir) : Except Error (Option UInt64) :=
  generationOf (readEntry (dir .generation))

/-- The persisted state of a directory that nothing changes meanwhile. -/
def StateDir.load (dir : StateDir) : Except Error PersistedState := do
  let generation ← dir.readGeneration
  let fingerprint ← dir.readString .fingerprint
  let signingKey ← dir.readString .signingKey
  pure { generation := generation, fingerprint := fingerprint, signingKey := signingKey }

theorem load_eq_ok {dir : StateDir} {persisted : PersistedState} :
    dir.load = .ok persisted ↔ dir.readGeneration = .ok persisted.generation ∧
      dir.readString .fingerprint = .ok persisted.fingerprint ∧
      dir.readString .signingKey = .ok persisted.signingKey := by
  obtain ⟨generation, fingerprint, signingKey⟩ := persisted
  simp only [StateDir.load, Checks.bind_eq_ok, Checks.pure_eq_ok, PersistedState.mk.injEq]
  constructor
  · rintro ⟨_, hg, _, hf, _, hk, rfl, rfl, rfl⟩
    exact ⟨hg, hf, hk⟩
  · rintro ⟨hg, hf, hk⟩
    exact ⟨_, hg, _, hf, _, hk, rfl, rfl, rfl⟩

theorem readString_missing {dir : StateDir} {file : StateFile} (h : dir file = .missing) :
    dir.readString file = .ok none := by
  rw [StateDir.readString, h]
  rfl

theorem readGeneration_missing {dir : StateDir} (h : dir .generation = .missing) :
    dir.readGeneration = .ok none := by
  rw [StateDir.readGeneration, h]
  rfl

def storedLine (s : Text) : Bytes := encodeUtf8 (s ++ ['\n'])

theorem stringOf_storedLine (s : Text) :
    stringOf (.ok (storedLine s)) =
      .ok (if trimText s = [] then none else some (trimText s)) := by
  simp only [stringOf, optionalOf, storedLine, bind, Except.bind,
    decodeUtf8_encodeUtf8, trimText_newline]
  split <;> rfl

theorem readString_storedLine {dir : StateDir} {file : StateFile} {s : Text}
    (h : dir file = .regular (storedLine s)) (hs : trimText s ≠ []) :
    dir.readString file = .ok (some (trimText s)) := by
  rw [StateDir.readString, h, readEntry, stringOf_storedLine, if_neg hs]

theorem readGeneration_storedLine {dir : StateDir} {g : UInt64}
    (h : dir .generation = .regular (storedLine (decimal g.toNat))) :
    dir.readGeneration = .ok (some g) := by
  have hne : trimText (decimal g.toNat) ≠ [] := by
    rw [trimText_decimal]
    exact decimal_ne_nil _
  rw [StateDir.readGeneration, h, readEntry, generationOf, stringOf_storedLine,
    if_neg hne]
  simp only [bind, Except.bind, trimText_decimal, parseU64_decimal]

end MayflyAgent.StateFiles
