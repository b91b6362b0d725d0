import ClassGraft.Class.Listing
import ClassGraft.Command.Setup

/-!
# Commands that only read

Files with patches are checked, and class files are listed; nothing is written.
-/

/-!
## Checking files with patches

Files with patches are read, and the patches listed by class in the order in which they would be
applied.
-/

namespace ClassGraft

namespace Task

variable {m : Type → Type} [Monad m] [Workplace m]

/-- Registers the patches of a file. -/
def registerFile (registry : Registry) (path : String) : Task m Registry := do
  let patches ← readPatches path
  log .info (Quoted.encode path ++ s!": {patches.length} patch(es)")
  during (.usePatches path) (ofExcept .inPatch (registry.registerAll patches))

/-- Lists the patches of a class. -/
def listPatches : String × ClassPatches → Task m Unit
  | (name, ⟨patches, fingerprint⟩) => do
    print (name ++ s!": {patches.length} patch(es), fingerprint " ++ Bytes.hex fingerprint)
    patches.forM fun patch =>
      print ("  [" ++ patch.id ++ "] priority " ++ Decimal.integer patch.priority.toInt ++ ": "
        ++ ", ".intercalate (patch.edits.map Edit.text))

/-- Checks files with patches. -/
def check (paths : List String) : Task m Unit := do
  let registry ← paths.foldlM registerFile Registry.empty
  registry.schedule.classes.forM listPatches

end Task

end ClassGraft

/-!
## Listing a class file
-/

namespace ClassGraft.Task

variable {m : Type → Type} [Monad m] [Workplace m]

/-- Prints the listing of a class file. -/
def dump (path : String) : Task m Unit := do
  let bytes ← during (.readFile path) (readBytes path)
  let file ← during (.parse path) (ofExcept .inClass (ClassFile.parse bytes))
  file.lines.forM print

end ClassGraft.Task
