import ClassGraft.Command.Arguments

/-!
# The program

Files are those of the system, texts are printed to the standard output, and what is logged goes to
the standard error output.
-/

namespace ClassGraft

/-- What goes on while a command runs; it knows whether nothing but errors is logged. -/
abbrev Session := ReaderT Bool IO

namespace Session

/-- The fault that an error of the system stands for.  The codes of some come with a minus sign. -/
def faultOf (error : IO.Error) : FileFault :=
  match error with
  | .noFileOrDirectory _ _ _ => .notFound
  | .alreadyExists _ _ _ => .exists
  | .inappropriateType _ code _ =>
    if [20, -20].contains code then .notDirectory
    else if [21, -21].contains code then .isDirectory
    else .other (toString error)
  | .invalidArgument _ code _ =>
    if [36, -36].contains code then .nameTooLong else .other (toString error)
  | error => .other (toString error)

/-- A step that may meet an error of the system. -/
def attempt {α : Type} (step : IO α) : Session (Except FileFault α) := do
  match ← (step.toBaseIO : BaseIO _) with
  | .ok value => return .ok value
  | .error error => return .error (faultOf error)

/-- Whether a path leads to a directory. -/
def leadsToDirectory (path : String) : IO Bool := do
  match ← (IO.FS.realPath path).toBaseIO with
  | .ok found => found.isDir
  | .error _ => return false

/-- The paths of all files below a directory, each after a text. -/
partial def filesBelow (directory above : String) : IO (List String) := do
  let children ← (← IO.FS.realPath directory).readDir
  let names := (children.toList.map (·.fileName)).mergeSort fun a b => decide (a ≤ b)
  let found ← names.mapM fun name => do
    let path := Path.join directory name
    if ← leadsToDirectory path then filesBelow path (above ++ name ++ "/")
    else return [above ++ name]
  return found.flatten

instance : Workplace Session where
  read path := attempt do return (← IO.FS.readBinFile path).data.toList
  write path contents := attempt (IO.FS.writeBinFile path ⟨contents.toArray⟩)
  addDirectory path := attempt (IO.FS.createDir path)
  hasDirectory path := leadsToDirectory path
  list path := attempt (filesBelow path "")
  print text := IO.println text
  log level text := do
    if level = .error || !(← read) then
      IO.eprintln ("[" ++ level.text ++ "] " ++ text)

/-- Does what a command line says, and answers the exit code. -/
def run (arguments : List String) : IO UInt32 := do
  match Invocation.ofArguments arguments with
  | .error fault =>
    IO.eprintln (fault.message ++ "\n" ++ usageText)
    return 2
  | .ok invocation =>
    let task : Task Session Unit := invocation.request.task
    match ← (task.run invocation.isQuiet : IO (Except Trouble Unit)) with
    | .ok _ => return 0
    | .error trouble =>
      IO.eprintln ("Error: " ++ trouble.message)
      return 1

end Session

end ClassGraft

/-- Runs the command that the arguments name. -/
def main (arguments : List String) : IO UInt32 :=
  ClassGraft.Session.run arguments
