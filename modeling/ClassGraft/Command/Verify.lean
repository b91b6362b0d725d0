import ClassGraft.Command.Apply

/-!
# Verifying files

Every class among some entries is read, all its code is encoded again, and the result is verified.
-/

namespace ClassGraft

/-- The class with all code to be encoded again. -/
def ClassFile.touch (file : ClassFile) : ClassFile :=
  { file with methods := file.methods.map fun method =>
      match method.body? with
      | some body => method.withBody body.touch
      | none => method }

/-- What is wrong with the bytes of a class. -/
def classDefect? (hierarchy : Hierarchy) (bytes : Bytes) : Option String :=
  match ClassFile.parse bytes with
  | .error fault => some fault.message
  | .ok file =>
    match (ClassFile.refresh hierarchy).run file.touch with
    | (.error refusal, _) => some refusal.message
    | (.ok _, file) =>
      match file.verify hierarchy, file.serialize with
      | .error refusal, _ => some refusal.message
      | .ok _, .error fault => some fault.message
      | .ok _, .ok _ => none

namespace Task

variable {m : Type → Type} [Monad m] [Workplace m]

/-- Verifies the classes among the entries that a path leads to. -/
def verify (path : String) : Task m Unit := do
  let entries ← readEntries path
  let hierarchy := Hierarchy.classPath (ClassPath.ofEntries entries)
  let classes := entries.filter (·.className?.isSome)
  let failures := classes.filterMap fun entry =>
    (classDefect? hierarchy entry.contents).map fun defect => entry.name ++ ": " ++ defect
  failures.forM (log .error)
  if !failures.isEmpty then throw (.notVerified failures.length classes.length)
  log .info s!"all {classes.length} class(es) are fine"

end Task

end ClassGraft
