import ClassGraft.Command.Basic
import ClassGraft.Engine.Basic
import ClassGraft.Patch.Decoding

/-!
# Setting up an engine

Settings and patches from files, and an engine with the patches of the files that its settings name
and with patches that are registered otherwise.
-/

namespace ClassGraft

/-- The settings with the files they name found from a directory. -/
def Settings.inDirectory (settings : Settings) (directory : String) : Settings :=
  { settings with patchFiles := settings.patchFiles.map (Path.join directory) }

namespace Task

variable {m : Type → Type} [Monad m]

/-- The settings that a text says. -/
def settingsOf (text : String) : Task m Settings :=
  match Settings.ofText? text with
  | some settings => return settings
  | none => throw .settings

/-- The patches that a text says. -/
def patchesOf (text : String) : Task m (List Patch) :=
  ofExcept .inPatch (Patch.ofFileText text)

variable [Workplace m]

/-- The settings that a configuration file says, with files that are found from where it is. -/
def readSettings (path : String) : Task m Settings := do
  let text ← during (.readSettings path) (readText path)
  let settings ← during (.useSettings path) (settingsOf text)
  match Path.parent? path with
  | some directory => return settings.inDirectory directory
  | none => return settings

/-- The patches of a file. -/
def readPatches (path : String) : Task m (List Patch) := do
  let text ← during (.readPatches path) (readText path)
  during (.usePatches path) (patchesOf text)

/-- The patches of several files. -/
def readAllPatches (paths : List String) : Task m (List Patch) := do
  return (← paths.mapM readPatches).flatten

/-- An engine with the patches of the files that its settings name, and then those that `register`
registers. -/
def initialEngine (settings : Settings) (hierarchy : Hierarchy)
    (register : Registry → Except PatchFlaw Registry) : Task m Engine := do
  let patches ← readAllPatches settings.patchFiles
  let registry ← during .registerFiles (ofExcept .inPatch (Registry.empty.registerAll patches))
  let registry ← during .register (ofExcept .inPatch (register registry))
  return Engine.new registry.schedule hierarchy settings

end Task

end ClassGraft
