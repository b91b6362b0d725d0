import ClassGraft.Archive.Reader
import ClassGraft.Archive.Writer
import ClassGraft.Command.Setup

/-!
# Applying patches to files

Every class among some entries is patched, and all other entries are copied.
-/

/-!
## Reading and writing entries

Entries are read from an archive, from a directory, or from a single file, and written to an archive
or into a directory.  The path tells which of these it is.
-/

namespace ClassGraft

/-- Whether a path is that of an archive. -/
def Path.isArchive (path : String) : Bool :=
  [some "jar", some "zip"].contains (Path.extension? path)

namespace Task

variable {m : Type → Type} [Monad m] [Workplace m]

/-- The files below a directory. -/
def readDirectory (path : String) : Task m (List ArchiveEntry) := do
  (← onFiles (Workplace.list path)).mapM fun name => do
    let file := Path.join path name
    return ⟨name, ← during (.readFile file) (readBytes file)⟩

/-- The entries that a path leads to. -/
def readEntries (path : String) : Task m (List ArchiveEntry) := do
  if ← liftM (Workplace.hasDirectory (m := m) path) then
    during (.readDirectory path) (readDirectory path)
  else if Path.isArchive path then
    let bytes ← during (.openArchive path) (readBytes path)
    during (.readArchive path) (ofExcept .inArchive (Archive.read bytes))
  else
    let contents ← during (.readFile path) (readBytes path)
    match Path.fileName? path with
    | some name => return [⟨name, contents⟩]
    | none => throw (.noFileName path)

/-- Adds a directory, unless it is there. -/
def addDirectory (path : String) : Task m Unit := do
  match ← liftM (Workplace.addDirectory (m := m) path) with
  | .ok _ => return
  | .error fault =>
    unless ← liftM (Workplace.hasDirectory (m := m) path) do throw (.inFile fault)

/-- Adds a directory, unless it is there, given its path and those of the directories above it.
Those are added too if it cannot be added without them. -/
def addDirectories : List String → Task m Unit
  | [] => return
  | path :: above =>
    tryCatch (addDirectory path) fun trouble => do
      if trouble ≠ .inFile .notFound then throw trouble
      addDirectories above
      addDirectory path

/-- Writes an entry below a directory. -/
def writeEntry (directory : String) (entry : ArchiveEntry) : Task m Unit := do
  if (entry.name.splitOn "/").any fun part => part == ".." || part.isEmpty then
    throw (.outside entry.name)
  let path := Path.join directory entry.name
  if let some parent := Path.parent? path then
    addDirectories (Path.ancestors parent.length parent)
  during (.writeFile path) (onFiles (Workplace.write path entry.contents))

/-- Writes an archive.  One that cannot be finished is there with nothing in it. -/
def writeArchive (path : String) (entries : List ArchiveEntry) : Task m Unit := do
  during (.createArchive path) (onFiles (Workplace.write path []))
  during (.writeArchive path) do
    let bytes ← ofExcept .inArchive (Archive.write entries)
    onFiles (Workplace.write path bytes)

/-- Writes entries where a path leads to. -/
def writeEntries (path : String) (entries : List ArchiveEntry) : Task m Unit :=
  if Path.isArchive path then writeArchive path entries
  else during (.writeDirectory path) (entries.forM (writeEntry path))

end Task

end ClassGraft

/-! ## Patching entries -/

namespace ClassGraft

/-- What is known of the classes among entries that can be read. -/
def ClassPath.ofEntries (entries : List ArchiveEntry) : ClassPath :=
  entries.foldl (fun path entry =>
    if entry.className?.isSome then
      match ClassFile.parse entry.contents with
      | .ok file => path.addClass file
      | .error _ => path
    else path) []

/-- What to apply, and where. -/
structure Application where
  /-- Files with patches, applied after those that the configuration names. -/
  patches : List String
  config : Option String
  input : String
  output : String
  /-- Whether patched classes are verified, if the configuration says so. -/
  verifies : Bool
  deriving DecidableEq, Repr

namespace Task

variable {m : Type → Type} [Monad m] [Workplace m]

/-- The settings for an application.  No outcome is needed twice, so none is remembered. -/
def settingsFor (application : Application) : Task m Settings := do
  let settings ← match application.config with
    | some path => readSettings path
    | none => pure .default
  return { settings with
    usesCache := false
    verifies := settings.verifies && application.verifies
    patchFiles := settings.patchFiles ++ application.patches }

/-- The entry after patching, and what became of its class. -/
def transformEntry (engine : Engine) (entry : ArchiveEntry) :
    Task m (ArchiveEntry × Option Outcome) := do
  match entry.className? with
  | none => return (entry, none)
  | some name =>
    let outcome ← during (.transform entry.name)
      (ofExcept .inClass (engine.transform name entry.contents).1)
    return (⟨entry.name, outcome.bytes entry.contents⟩, some outcome)

/-- Tells what became of a class. -/
def tellOutcome : Outcome → Task m Unit
  | .passThrough => return
  | .patched _ report => print report.text
  | .fellBack report => do
    print report.text
    log .warn (report.className ++ " is left unpatched")

/-- Patches the classes among the entries of the input, and writes all of them to the output. -/
def apply (application : Application) : Task m Unit := do
  let settings ← settingsFor application
  if settings.patchFiles.isEmpty then throw .noPatchFiles
  let patches ← readAllPatches settings.patchFiles
  let registry ← ofExcept .inPatch (Registry.empty.registerAll patches)
  let entries ← readEntries application.input
  let hierarchy := Hierarchy.classPath (ClassPath.ofEntries entries)
  let schedule := registry.schedule
  let engine := Engine.new schedule hierarchy settings
  log .info s!"{schedule.size} patch(es) for {schedule.classNames.length} class(es)"
  let results ← entries.mapM (transformEntry engine)
  let outcomes := results.filterMap (·.2)
  outcomes.forM tellOutcome
  let found := entries.filterMap (·.className?)
  let input := Quoted.encode application.input
  (schedule.classNames.filter (!found.contains ·)).forM fun name =>
    log .warn ("there are patches for " ++ name ++ ", but it's not in " ++ input)
  writeEntries application.output (results.map (·.1))
  let patched := outcomes.countP fun | .patched _ _ => true | _ => false
  let fellBack := outcomes.countP fun | .fellBack _ => true | _ => false
  log .info (s!"patched {patched} class(es), {fellBack} left unpatched, "
    ++ s!"wrote {entries.length} file(s) to " ++ Quoted.encode application.output)

end Task

end ClassGraft
