import ClassGraft.Class.Basic

/-!
# Class hierarchies

Where paths through code meet, two classes need a common super class.  A hierarchy answers that, as
far as it knows: one knows no classes, the other a list of classes with their super classes.

Arguments are names of classes, never descriptors of arrays.
-/

namespace ClassGraft

/-- The name of the root of all classes. -/
def objectName : Bytes := Bytes.ofAscii "java/lang/Object"

/-- What a hierarchy knows of a class. -/
structure ClassEntry where
  name : Bytes
  /-- Absent for the root of all classes. -/
  super : Option Bytes
  isInterface : Bool
  deriving DecidableEq, Repr

/-- Classes by name, each at most once. -/
abbrev ClassPath := List ClassEntry

namespace ClassPath

variable (path : ClassPath)

/-- What is known of a class. -/
def find? (name : Bytes) : Option ClassEntry := List.find? (·.name == name) path

/-- The classes with another one, in place of one of the same name. -/
def add (entry : ClassEntry) : ClassPath :=
  path.filter (·.name != entry.name) ++ [entry]

/-- Whether the name is known as that of an interface. -/
def isInterface (name : Bytes) : Bool := (path.find? name).any (·.isInterface)

/-- The class followed by its super classes up to the root of all classes.  Absent if one of them
is not known, or if they form a circle: a class that was passed is not found again. -/
def supers (path : ClassPath) (name : Bytes) : Option (List Bytes) :=
  if name = objectName then some [name]
  else
    match h : path.findIdx? (·.name == name) with
    | none => none
    | some index =>
      have hi : index < path.length := (List.findIdx?_eq_some_iff_findIdx_eq.1 h).1
      (supers (path.eraseIdx index) (path[index].super.getD objectName)).map (name :: ·)
  termination_by path.length
  decreasing_by
    rw [List.length_eraseIdx_of_lt hi]
    omega

end ClassPath

/-- What is known about classes.  A hierarchy is of one of two kinds, to which a host cannot add its
own: with these the type of a value changes only finitely often where paths meet, so that every
analysis ends. -/
inductive Hierarchy where
  | unknown
  | classPath (path : ClassPath)
  deriving Repr

namespace Hierarchy

/-- The most specific class that both are assignable to, if that is known.  Interfaces count as the
root of all classes. -/
def common (a b : Bytes) : Hierarchy → Option Bytes
  | unknown =>
    if a = b then some a
    else if a = objectName ∨ b = objectName then some objectName
    else none
  | classPath path =>
    if a = b then some a
    else if a = objectName ∨ b = objectName ∨ path.isInterface a ∨ path.isInterface b then
      some objectName
    else do
      let above ← path.supers a
      (← path.supers b).find? (above.contains ·)

/-- Whether a value of the class `source` can be used where `target` is expected, if that is
known. -/
def assignable (source target : Bytes) : Hierarchy → Option Bool
  | unknown => if source = target ∨ target = objectName then some true else none
  | classPath path =>
    if source = target ∨ target = objectName ∨ path.isInterface target then some true
    else if (path.find? target).isNone then none
    else (path.supers source).map (·.contains target)

/-- The number of classes that are known. -/
def size : Hierarchy → Nat
  | unknown => 0
  | classPath path => path.length

end Hierarchy

/-- The classes with the given one; a class whose name is not known is left out. -/
def ClassPath.addClass (path : ClassPath) (file : ClassFile) : ClassPath :=
  match file.name? with
  | some name => path.add ⟨name, file.superName?, file.isInterface⟩
  | none => path

end ClassGraft
