import ClassGraft.Archive.Basic
import ClassGraft.Files.Workplace
import ClassGraft.Patch.Fault

/-!
# Steps of commands

A task is done at a workplace and gives up when there is trouble.
-/

/-!
## Troubles

Why a command gives up.  A trouble is told from the outside in: what the command was doing, and what
went wrong there.
-/

namespace ClassGraft

/-- What a command does while something goes wrong. -/
inductive Activity where
  | readSettings (path : String)
  | useSettings (path : String)
  | readPatches (path : String)
  | usePatches (path : String)
  | registerFiles
  | register
  | readDirectory (path : String)
  | openArchive (path : String)
  | readArchive (path : String)
  | readFile (path : String)
  | createArchive (path : String)
  | writeArchive (path : String)
  | writeDirectory (path : String)
  | writeFile (path : String)
  | parse (path : String)
  | transform (name : String)
  deriving DecidableEq, Repr

/-- The wording of the activity. -/
def Activity.message : Activity → String
  | readSettings path => "failed to read configuration " ++ Quoted.encode path
  | useSettings path => "in configuration " ++ Quoted.encode path
  | readPatches path => "failed to read patch file " ++ Quoted.encode path
  | usePatches path => "in patch file " ++ Quoted.encode path
  | registerFiles => "failed to register patches from files"
  | register => "failed to register patches"
  | readDirectory path => "failed to read directory " ++ Quoted.encode path
  | openArchive path => "failed to open jar " ++ Quoted.encode path
  | readArchive path => "failed to read jar " ++ Quoted.encode path
  | readFile path => "failed to read " ++ Quoted.encode path
  | createArchive path => "failed to create jar " ++ Quoted.encode path
  | writeArchive path => "failed to write jar " ++ Quoted.encode path
  | writeDirectory path => "failed to write directory " ++ Quoted.encode path
  | writeFile path => "failed to write " ++ Quoted.encode path
  | parse path => "failed to parse " ++ Quoted.encode path
  | transform name => "failed to transform " ++ name

/-- Why a command gives up. -/
inductive Trouble where
  | inFile (fault : FileFault)
  | inArchive (fault : ArchiveFault)
  | inClass (fault : ClassFault)
  | inPatch (flaw : PatchFlaw)
  /-- A configuration that cannot be read. -/
  | settings
  | noPatchFiles
  | noFileName (path : String)
  /-- An entry that would be written somewhere else. -/
  | outside (name : String)
  | notVerified (failed all : Nat)
  | during (activity : Activity) (trouble : Trouble)
  deriving DecidableEq, Repr

/-- The wording of the trouble, each activity before what went wrong. -/
def Trouble.message : Trouble → String
  | inFile fault => fault.message
  | inArchive fault => fault.message
  | inClass fault => fault.message
  | inPatch flaw => (PatchFault.invalid flaw).message
  | settings => "failed to parse weave configuration"
  | noPatchFiles => "no patch files given, use `--patches` or a configuration file"
  | noFileName path => Quoted.encode path ++ " has no file name"
  | outside name =>
    "refusing to write entry " ++ Quoted.encode name ++ " outside of the output directory"
  | notVerified failed all => s!"{failed} of {all} class(es) failed verification"
  | during activity trouble => activity.message ++ ": " ++ trouble.message

end ClassGraft

/-! ## Tasks -/

namespace ClassGraft

/-- Something that is done at a workplace. -/
abbrev Task (m : Type → Type) (α : Type) := ExceptT Trouble m α

namespace Task

variable {m : Type → Type} [Monad m] {α : Type}

/-- What goes wrong in the task goes wrong during an activity. -/
def during (activity : Activity) (task : Task m α) : Task m α :=
  ExceptT.adapt (.during activity) task

/-- A result that may be trouble. -/
def ofExcept {ε : Type} (trouble : ε → Trouble) (result : Except ε α) : Task m α :=
  liftM (result.mapError trouble)

/-- A step on files. -/
def onFiles (step : m (Except FileFault α)) : Task m α := do
  ofExcept .inFile (← (step : m (Except FileFault α)))

variable [Workplace m]

/-- The contents of a file. -/
def readBytes (path : String) : Task m Bytes := onFiles (Workplace.read path)

/-- The contents of a file as text. -/
def readText (path : String) : Task m String := do
  match Utf8.decode? (← readBytes path) with
  | some chars => return String.ofList chars
  | none => throw (.inFile .notText)

/-- Prints a text. -/
def print (text : String) : Task m Unit := liftM (Workplace.print (m := m) text)

/-- Logs a text. -/
def log (level : LogLevel) (text : String) : Task m Unit :=
  liftM (Workplace.log (m := m) level text)

end Task

end ClassGraft
