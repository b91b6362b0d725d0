import ClassGraft.Digest.Sha256
import ClassGraft.Patch.Encoding
import ClassGraft.Patch.Validation

/-!
# Patches by class

Patches are registered one by one, and each time a patch is registered it counts once more.  A
schedule has for each class its patches in the order in which they are applied: by priority, and
those of one priority as they were registered.  The fingerprint of a class is a digest of its
patches in that order.
-/

namespace ClassGraft

/-- The digest of patches in the order in which they are applied. -/
def fingerprintOf (patches : List Patch) : Bytes :=
  Sha256.digest (Bytes.ofText (Json.array (patches.map Patch.json)).compact)

/-- The patches of one class. -/
structure ClassPatches where
  patches : List Patch
  fingerprint : Bytes
  deriving DecidableEq, Repr

/-- Patches in the order in which they were registered. -/
structure Registry where
  patches : List Patch
  deriving DecidableEq, Repr

/-- The patches of each class. -/
structure Schedule where
  /-- The classes by name, in order of their names. -/
  classes : List (String × ClassPatches)
  deriving DecidableEq, Repr

namespace Registry

/-- No patches. -/
def empty : Registry := ⟨[]⟩

/-- Adds a patch that has no flaw. -/
def register (registry : Registry) (patch : Patch) : Except PatchFlaw Registry :=
  match patch.flaw? with
  | some flaw => .error flaw
  | none => .ok ⟨registry.patches ++ [patch]⟩

/-- Adds patches, none of which has a flaw. -/
def registerAll (registry : Registry) (patches : List Patch) : Except PatchFlaw Registry :=
  patches.foldlM register registry

/-- The names of the classes that have patches, in order. -/
def classNames (registry : Registry) : List String :=
  ((registry.patches.map (·.className)).eraseDups).mergeSort fun a b => decide (a ≤ b)

/-- The patches of a class in the order in which they are applied. -/
def patchesOf (registry : Registry) (name : String) : List Patch :=
  (registry.patches.filter (·.className == name)).mergeSort fun a b =>
    decide (a.priority ≤ b.priority)

/-- The patches of each class. -/
def schedule (registry : Registry) : Schedule :=
  ⟨registry.classNames.map fun name =>
    let patches := registry.patchesOf name
    (name, ⟨patches, fingerprintOf patches⟩)⟩

end Registry

namespace Schedule

variable (schedule : Schedule)

/-- The patches of a class in the order in which they are applied. -/
def patchesOf (name : String) : List Patch :=
  ((schedule.classes.lookup name).map (·.patches)).getD []

/-- The fingerprint of the patches of a class, if it has any. -/
def fingerprint? (name : String) : Option Bytes :=
  (schedule.classes.lookup name).map (·.fingerprint)

/-- The names of the classes that have patches, in order. -/
def classNames : List String := schedule.classes.map (·.1)

/-- The number of patches. -/
def size : Nat := schedule.classes.foldl (fun count entry => count + entry.2.patches.length) 0

end Schedule

end ClassGraft
