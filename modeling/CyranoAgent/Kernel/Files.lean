import CyranoAgent.Contracts.Canonical
import CyranoAgent.Kernel.Actions
import CyranoAgent.Lib.Program

/-!
# Files below a root

Source applies and anchored edits read and write files below a root directory, and keep a journal
in a directory of its own. A name below the root leads to a file, several names may lead to one
(spellings of a path, links, a file system that folds case), and the contents belong to the file.

Both are programs of file operations (`FileProgram`). What a write leaves when it raises is the
environment's choice: `Files.faults` says it for the writes to come. A journal is written in two
operations, as `write_text` empties the file before it fills it, and a program can be stopped
between any two of its operations.
-/

namespace CyranoAgent

namespace Kernel

open Lib

/-- The contents of a file. -/
abbrev Bytes := List UInt8

/-- `_file_digest`. -/
def fileDigest (content : Bytes) : String := rawDigest ⟨content.toArray⟩

/-- `_check_path`. The parts of a path are never empty or a dot. -/
def checkPath (path : String) : Except Failure Unit :=
  if path = "" ∨ path.toList.head? = some '/' ∨ '\\' ∈ path.toList ∨ ".." ∈ pathParts path then
    .error (.cyrano "ACL_DENIED" path)
  else .ok ()

/-! ### Files -/

/-- What a name below the root is: a file by its number, or a link, to a file or to something else.
-/
inductive Node
  | missing
  | directory
  | file (id : ℕ)
  | symlink (target : Option ℕ)
  deriving DecidableEq, Repr

/-- The file that a name leads to. -/
def Node.file? : Node → Option ℕ
  | .file id => some id
  | .symlink target => target
  | _ => none

/-- `is_symlink`. -/
def Node.isSymlink : Node → Bool
  | .symlink _ => true
  | _ => false

/-- `exists`, of a name that is not a link. -/
def Node.isThere : Node → Bool
  | .missing => false
  | _ => true

/-- A write that raises `OSError`, with what it leaves in the file. -/
structure TornWrite where
  error : String
  left : Bytes
  deriving DecidableEq, Repr

/-- The names below the root, the contents of the files, the journal directory with its entries, an
entry without contents being torn, and how the writes to come end. -/
structure Files (J : Type) where
  node : List String → Node
  bytes : ℕ → Bytes
  journals : List (String × Option J) := []
  faults : List (Option TornWrite) := []

namespace Files

variable {J : Type}

/-- The file that a path leads to. -/
def target (s : Files J) (path : String) : Option ℕ := (s.node (pathParts path)).file?

/-- The contents of a journal entry. -/
def journal? (s : Files J) (name : String) : Option J :=
  (s.journals.find? fun entry => entry.1 = name).bind Prod.snd

/-- Make or replace a journal entry. -/
def putJournal (s : Files J) (name : String) (entry : Option J) : Files J :=
  { s with journals := (name, entry) :: s.journals.filter fun other => other.1 ≠ name }

/-- The fault of the next write. -/
def fault (s : Files J) : Option TornWrite := s.faults.head?.join

/-- Write to a file; a write that raises leaves what its fault says. -/
def writeFile (s : Files J) (id : ℕ) (data : Bytes) : Except Failure Unit × Files J :=
  (match s.fault with
    | none => .ok ()
    | some torn => .error (.python "OSError" torn.error),
    { s with
      bytes := Function.update s.bytes id (match s.fault with
        | none => data
        | some torn => torn.left)
      faults := s.faults.tail })

theorem journal?_putJournal (s : Files J) (name other : String) (entry : Option J) :
    (s.putJournal name entry).journal? other =
      if other = name then entry else s.journal? other := by
  rw [journal?, putJournal, List.find?_cons]
  by_cases h : other = name
  · simp [h]
  · rw [if_neg h, journal?, List.find?_filter]
    simp only [Ne.symm h, decide_false]
    refine congrArg (Option.bind · _) (congrArg (List.find? · _) (funext fun entry => ?_))
    by_cases hentry : entry.1 = other <;> simp [hentry, h]

end Files

/-! ### Operations -/

/-- The file operations of the programs. -/
inductive FileOp (J : Type)
  | isSymlink (parts : List String)
  | fileExists (parts : List String)
  | read (parts : List String)
  | write (parts : List String) (data : Bytes)
  | journalCount
  | readJournal (name : String)
  | openJournal (name : String)
  | fillJournal (name : String) (entry : J)

/-- What an operation returns; reads and writes may raise, which the program sees. -/
@[reducible] def FileOp.Reply {J : Type} : FileOp J → Type
  | .isSymlink _ | .fileExists _ => Bool
  | .read _ => Except Failure Bytes
  | .write _ _ => Except Failure Unit
  | .journalCount => ℕ
  | .readJournal _ => Except Failure J
  | .openJournal _ | .fillJournal _ _ => Unit

section

variable {J : Type}

/-- What an operation returns and leaves. -/
def FileOp.perform : (op : FileOp J) → Files J → op.Reply × Files J
  | .isSymlink parts, s => ((s.node parts).isSymlink, s)
  | .fileExists parts, s => ((s.node parts).isThere, s)
  | .read parts, s =>
    (match (s.node parts).file?, s.node parts with
      | some id, _ => .ok (s.bytes id)
      | none, .directory => .error (.python "IsADirectoryError" ("/".intercalate parts))
      | none, _ => .error (.python "FileNotFoundError" ("/".intercalate parts)), s)
  | .write parts data, s =>
    match (s.node parts).file? with
    | some id => s.writeFile id data
    | none => (.error (.python "FileNotFoundError" ("/".intercalate parts)), s)
  | .journalCount, s => (s.journals.length, s)
  | .readJournal name, s =>
    (match s.journal? name with
      | some entry => .ok entry
      | none => .error (.python "FileNotFoundError" name), s)
  | .openJournal name, s => ((), s.putJournal name none)
  | .fillJournal name entry, s => ((), s.putJournal name (some entry))

/-- An operation never ends a program by itself. -/
def fileAct (op : FileOp J) : Action (Files J) Failure op.Reply := fun s =>
  (.ok (op.perform s).1, (op.perform s).2)

/-- Programs of file operations. -/
abbrev FileProgram (J α : Type) := Program (FileOp J) FileOp.Reply Failure α

namespace FileProgram

variable {α β : Type}

/-- Run a program with nothing coming in between. -/
def run (p : FileProgram J α) (s : Files J) : Except Failure α × Files J :=
  (Program.alone fileAct p).run s

/-- `Path.is_symlink`. -/
def isSymlink (parts : List String) : FileProgram J Bool :=
  .call (.isSymlink parts) fun linked => pure linked

/-- `Path.exists`. -/
def fileExists (parts : List String) : FileProgram J Bool :=
  .call (.fileExists parts) fun there => pure there

/-- `Path.read_bytes`. -/
def readBytes (parts : List String) : FileProgram J Bytes := .call (.read parts) .done

/-- `Path.write_bytes`, of a file that was read before. -/
def writeBytes (parts : List String) (data : Bytes) : FileProgram J Unit :=
  .call (.write parts data) .done

/-- `try` to write, and see what it raises. -/
def tryWrite (parts : List String) (data : Bytes) : FileProgram J (Except Failure Unit) :=
  .call (.write parts data) fun written => pure written

/-- `Path.write_text`, of a journal entry. -/
def writeJournal (name : String) (entry : J) : FileProgram J Unit :=
  .call (.openJournal name) fun _ => .call (.fillJournal name entry) fun _ => pure ()

/-- How many entries the journal directory has. -/
def countJournals : FileProgram J ℕ := .call .journalCount fun count => pure count

/-- `try`: what the program raises is for what follows. -/
def attempt : FileProgram J α → FileProgram J (Except Failure α)
  | .done result => .done (.ok result)
  | .call op next => .call op fun reply => attempt (next reply)

/-- The JSON of a journal entry, read back. -/
def readJournal (name : String) : FileProgram J J := .call (.readJournal name) .done

variable {s t : Files J}

@[simp] theorem run_pure (a : α) : run (pure a : FileProgram J α) s = (.ok a, s) := rfl

@[simp] theorem run_done (result : Except Failure α) :
    run (.done result : FileProgram J α) s = (result, s) := by
  cases result <;> rfl

@[simp] theorem run_raise (e : Failure) :
    run (Program.raise e : FileProgram J α) s = (.error e, s) := rfl

@[simp] theorem run_isSymlink (parts : List String) :
    run (isSymlink parts) s = (.ok (s.node parts).isSymlink, s) := rfl

@[simp] theorem run_fileExists (parts : List String) :
    run (fileExists parts) s = (.ok (s.node parts).isThere, s) := rfl

theorem run_tryWrite {parts : List String} {id : ℕ} (data : Bytes)
    (h : (s.node parts).file? = some id) :
    run (tryWrite parts data) s = (.ok (s.writeFile id data).1, (s.writeFile id data).2) := by
  change (Except.ok ((FileOp.write parts data).perform s).1, _) = _
  simp only [FileOp.perform, h]

theorem run_bind (p : FileProgram J α) (next : α → FileProgram J β) :
    run (p >>= next) s =
      match run p s with
      | (.ok a, t) => run (next a) t
      | (.error e, t) => (.error e, t) := by
  rw [run, Program.alone_bind, Action.run_bind, run]
  rcases (Program.alone fileAct p).run s with ⟨_ | _, _⟩ <;> rfl

theorem run_call (op : FileOp J) (next : op.Reply → FileProgram J α) :
    run (.call op next) s = run (next (op.perform s).1) (op.perform s).2 := rfl

/-- What follows a program that returned. -/
theorem run_bind_ok {p : FileProgram J α} {next : α → FileProgram J β} {a : α}
    (h : run p s = (.ok a, t)) : run (p >>= next) s = run (next a) t := by
  rw [run_bind, h]

/-- A program that raised ends the sequence. -/
theorem run_bind_error {p : FileProgram J α} {next : α → FileProgram J β} {e : Failure}
    (h : run p s = (.error e, t)) : run (p >>= next) s = (.error e, t) := by
  rw [run_bind, h]

@[simp] theorem bind_eq_ok {p : FileProgram J α} {next : α → FileProgram J β} {b : β} :
    run (p >>= next) s = (.ok b, t) ↔
      ∃ a r, run p s = (.ok a, r) ∧ run (next a) r = (.ok b, t) := by
  rw [run_bind]
  rcases run p s with ⟨_ | _, _⟩ <;> simp

/-- A run that is known to return, by a part of what it returns. -/
theorem exists_of_map_eq_ok {p : FileProgram J α} {f : α → β} {b : β}
    (h : (run p s).1.map f = .ok b) : ∃ a, run p s = (.ok a, (run p s).2) ∧ f a = b := by
  rcases hrun : run p s with ⟨_ | a, t⟩ <;> rw [hrun] at h
  · cases h
  · exact ⟨a, rfl, Except.ok.inj h⟩

@[simp] theorem raiseIf_eq_ok {c : Prop} [Decidable c] {e : Failure} {u : Unit} :
    run (Program.raiseIf c e : FileProgram J Unit) s = (.ok u, t) ↔ ¬c ∧ s = t := by
  rw [run, Program.alone_raiseIf, Action.raiseIf_eq_ok]

@[simp] theorem run_writeJournal (name : String) (entry : J) :
    run (writeJournal name entry) s =
      (.ok (), (s.putJournal name none).putJournal name (some entry)) := rfl

@[simp] theorem run_countJournals :
    run (countJournals (J := J)) s = (.ok s.journals.length, s) := rfl

theorem run_attempt (p : FileProgram J α) : run (attempt p) s = (.ok (run p s).1, (run p s).2) := by
  induction p generalizing s with
  | done result => rw [attempt, run_done, run_done]
  | call op next ih => rw [attempt, run_call, run_call, ih]

theorem run_readJournal {name : String} {entry : J} (h : s.journal? name = some entry) :
    run (readJournal name) s = (.ok entry, s) := by
  simp only [readJournal, run_call, run_done, FileOp.perform, h]

theorem readBytes_eq_ok {parts : List String} {content : Bytes} :
    run (readBytes parts) s = (.ok content, t) ↔
      (∃ id, (s.node parts).file? = some id ∧ s.bytes id = content) ∧ s = t := by
  rw [readBytes, run_call, run_done, FileOp.perform]
  rcases (s.node parts).file? with _ | id
  · rcases s.node parts <;> simp
  · simp

/-- A name that leads to no file cannot be read. -/
theorem exists_readBytes_error {parts : List String} (h : (s.node parts).file? = none) :
    ∃ type text, run (readBytes parts) s = (.error (.python type text), s) := by
  rw [readBytes, run_call, run_done, FileOp.perform, h]
  rcases s.node parts <;> exact ⟨_, _, rfl⟩

theorem run_writeBytes {parts : List String} {id : ℕ} (data : Bytes)
    (h : (s.node parts).file? = some id) : run (writeBytes parts data) s = s.writeFile id data := by
  simp only [writeBytes, run_call, run_done, FileOp.perform, h]

theorem writeBytes_eq_ok {parts : List String} {data : Bytes} {u : Unit} :
    run (writeBytes parts data) s = (.ok u, t) ↔
      ∃ id, (s.node parts).file? = some id ∧ s.fault = none ∧ t = (s.writeFile id data).2 := by
  rw [writeBytes, run_call, run_done, FileOp.perform]
  rcases (s.node parts).file? with _ | id
  · simp
  · rcases hfault : s.fault with _ | torn <;> simp [Files.writeFile, hfault, eq_comm]

end FileProgram

end

end Kernel

end CyranoAgent
