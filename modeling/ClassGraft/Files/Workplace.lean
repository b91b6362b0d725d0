import ClassGraft.Files.Tree

/-!
# Where commands work

Commands read and write files, print, and log what they do.  `Workplace` says what they need for
that; `Desk` is a workplace whose files are a tree and which keeps what was printed and logged.
-/

namespace ClassGraft

/-- How important something that is logged is. -/
inductive LogLevel where
  | error
  | warn
  | info
  deriving DecidableEq, Repr

/-- The level as logs show it. -/
def LogLevel.text : LogLevel → String
  | error => "ERROR"
  | warn => "WARN"
  | info => "INFO"

/-- What commands need of the place where they work. -/
class Workplace (m : Type → Type) where
  /-- The contents of a file. -/
  read : (path : String) → m (Except FileFault Bytes)
  /-- Sets the contents of a file, which may be new. -/
  write : (path : String) → (contents : Bytes) → m (Except FileFault Unit)
  /-- Adds a directory; the one above it is there, and it is not. -/
  addDirectory : (path : String) → m (Except FileFault Unit)
  hasDirectory : (path : String) → m Bool
  /-- The paths of all files below a directory, from that directory on.  What a directory holds
  comes in order of the names. -/
  list : (path : String) → m (Except FileFault (List String))
  print : (text : String) → m Unit
  log : LogLevel → (text : String) → m Unit

/-- A workplace in memory. -/
structure Desk where
  files : FileTree
  /-- What was printed, the last text first. -/
  printed : List String
  /-- What was logged, the last text first. -/
  logged : List (LogLevel × String)

namespace Desk

/-- A desk with files. -/
def start (files : FileTree) : Desk := ⟨files, [], []⟩

/-- Changes the files, if that succeeds. -/
def change (step : FileTree → Except FileFault FileTree) : StateM Desk (Except FileFault Unit) :=
  fun desk =>
    match step desk.files with
    | .ok files => (.ok (), { desk with files := files })
    | .error fault => (.error fault, desk)

instance : Workplace (StateM Desk) where
  read path := fun desk => (desk.files.read path, desk)
  write path contents := change fun files => files.write path contents
  addDirectory path := change fun files => files.addDirectory path
  hasDirectory path := fun desk => (desk.files.hasDirectory path, desk)
  list path := fun desk => ((desk.files.get path).map (FileTree.paths ""), desk)
  print text := modify fun desk => { desk with printed := text :: desk.printed }
  log level text := modify fun desk => { desk with logged := (level, text) :: desk.logged }

end Desk

end ClassGraft
