import ClassGraft.Class.Verification
import ClassGraft.Class.Write
import ClassGraft.Engine.Schedule
import ClassGraft.Graft.Edits
import ClassGraft.Json.Decoder

/-!
# The engine

The engine turns the bytes of a class into the bytes of the patched class.  If the patched class
cannot be used the class stays as it was, with a report that says why.  Outcomes may be remembered:
they depend on nothing but the name of the class, its patches and its bytes.
-/

/-!
## Settings

How the engine works, as a configuration file says it.  What the file does not say has a default.
-/

namespace ClassGraft

open Json (Decoder Fields)

/-- How the engine works. -/
structure Settings where
  /-- Whether it remembers outcomes. -/
  usesCache : Bool
  /-- Whether patched classes are verified. -/
  verifies : Bool
  /-- Whether a class that cannot be read stays as it is, instead of being an error. -/
  fallsBack : Bool
  patchFiles : List String
  deriving DecidableEq, Repr

namespace Settings

/-- The settings where nothing is said. -/
def default : Settings := ⟨true, true, true, []⟩

/-- A field with a flag that is set unless it is said otherwise. -/
def flag (key : String) : Fields Empty (Option Bool) Bool := .one key Decoder.bool (some true)

def decode : Decoder Empty Settings :=
  (((flag "cache").and ((flag "verify").and ((flag "fallback_on_error").and
    (Fields.one "patch_files" (Decoder.list Decoder.string) (some []))))).map
    fun (usesCache, verifies, fallsBack, patchFiles) =>
      Settings.mk usesCache verifies fallsBack patchFiles).decode true

/-- The settings that a configuration file says. -/
def ofText? (text : String) : Option Settings := (Json.decodeText decode text).toOption

end Settings

end ClassGraft

/-! ## Outcomes -/

namespace ClassGraft

/-- What becomes of a class. -/
inductive Outcome where
  /-- The class has no patches. -/
  | passThrough
  | patched (bytes : Bytes) (report : Report)
  /-- The class stays as it was. -/
  | fellBack (report : Report)
  deriving DecidableEq, Repr

namespace Outcome

/-- The bytes to use for the class. -/
def bytes (input : Bytes) : Outcome → Bytes
  | patched bytes _ => bytes
  | _ => input

/-- The report, if the class has patches. -/
def report? : Outcome → Option Report
  | passThrough => none
  | patched _ report => some report
  | fellBack report => some report

end Outcome

/-! ### Outcomes that are remembered -/

/-- What an outcome depends on; of the input its digest. -/
structure CacheKey where
  className : String
  fingerprint : Bytes
  input : Bytes
  deriving DecidableEq, Repr, Hashable

/-- The outcomes that are remembered. -/
abbrev Cache := Std.HashMap CacheKey Outcome

/-! ### Patching a class -/

/-- The engine with all that it depends on, and what it remembers if it does. -/
structure Engine where
  schedule : Schedule
  hierarchy : Hierarchy
  verifies : Bool
  fallsBack : Bool
  cache : Option Cache

namespace Engine

/-- The engine for settings. -/
def new (schedule : Schedule) (hierarchy : Hierarchy) (settings : Settings) : Engine where
  schedule := schedule
  hierarchy := hierarchy
  verifies := settings.verifies
  fallsBack := settings.fallsBack
  cache := if settings.usesCache then some ∅ else none

variable (engine : Engine)

/-- The bytes of a patched class, unless it is refused or cannot be written. -/
def finish (file : ClassFile) : Except PatchFault Bytes := do
  let (refreshed, file) := (ClassFile.refresh engine.hierarchy).run file
  let _ ← refreshed.mapError PatchFault.refused
  if engine.verifies then (file.verify engine.hierarchy).mapError PatchFault.refused
  file.serialize.mapError PatchFault.file

/-- Applies patches to a class that was read. -/
def patchFile (report : Report) (patches : List Patch) (file : ClassFile) : Outcome :=
  let (file, entries) := file.applyPatches patches
  let report := report.add entries
  if report.appliedCount = 0 then .fellBack report
  else
    match engine.finish file with
    | .ok bytes => .patched bytes report
    | .error fault => .fellBack (report.add [⟨none, .ofFault fault⟩])

/-- Applies the patches of a class to its bytes.  It fails only if the bytes are no class, and that
is not something to fall back on. -/
def patch (name : String) (fingerprint : Option Bytes) (patches : List Patch) (bytes : Bytes) :
    Except ClassFault Outcome :=
  let report : Report := ⟨name, fingerprint, []⟩
  match ClassFile.parse bytes with
  | .ok file => .ok (engine.patchFile report patches file)
  | .error fault =>
    if engine.fallsBack then .ok (.fellBack (report.add [⟨none, .failed (.file fault)⟩]))
    else .error fault

/-- The outcome that the cache has for a key, or else the one that is computed and remembered.
Faults are not remembered. -/
def remembered (cache : Cache) (key : CacheKey) (compute : Unit → Except ClassFault Outcome) :
    Except ClassFault Outcome × Engine :=
  match cache[key]? with
  | some outcome => (.ok outcome, engine)
  | none =>
    match compute () with
    | .ok outcome => (.ok outcome, { engine with cache := some (cache.insert key outcome) })
    | .error fault => (.error fault, engine)

/-- What becomes of the bytes of a class, and the engine that remembers it. -/
def transform (name : String) (bytes : Bytes) : Except ClassFault Outcome × Engine :=
  let patches := engine.schedule.patchesOf name
  let fingerprint := engine.schedule.fingerprint? name
  if patches.isEmpty then (.ok .passThrough, engine)
  else
    match engine.cache, fingerprint with
    | some cache, some digest =>
      engine.remembered cache ⟨name, digest, Sha256.digest bytes⟩ fun _ =>
        engine.patch name fingerprint patches bytes
    | _, _ => (engine.patch name fingerprint patches bytes, engine)

/-- The engine that remembers nothing so far. -/
def clear : Engine := { engine with cache := engine.cache.map fun _ => ∅ }

/-- The bytes to use for a class, if they are others, and the engine that remembers them. -/
def load (name : String) (bytes : Bytes) : Option Bytes × Engine :=
  let (result, engine) := engine.transform name bytes
  match result with
  | .ok (.patched bytes _) => (some bytes, engine)
  | _ => (none, engine)

end Engine

end ClassGraft
