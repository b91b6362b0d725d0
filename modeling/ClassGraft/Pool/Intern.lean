import ClassGraft.Pool.Lookup

/-!
# Adding constants by what they mean

An interning step adds a constant together with the constants that it refers to, and gives its
index.  The pool goes on from step to step; what a step added before it failed stays.
-/

namespace ClassGraft

/-- A step that may add constants. -/
abbrev Interning (α : Type) := ExceptT ClassFault (StateM Pool) α

namespace Interning

/-- Adds a constant unless an equal one is there, and gives its index. -/
def entry (entry : Pool.Entry) : Interning UInt16 := fun pool => pool.add entry

/-- A text given by its bytes. -/
def utf8Bytes (bytes : Bytes) : Interning UInt16 := entry (.utf8 bytes)

/-- A text. -/
def utf8 (text : String) : Interning UInt16 := utf8Bytes (ModifiedUtf8.encode text)

/-- A class given by the bytes of its name. -/
def classBytes (name : Bytes) : Interning UInt16 := do
  entry (.named .classRef (← utf8Bytes name))

/-- A class. -/
def classRef (name : String) : Interning UInt16 := do
  entry (.named .classRef (← utf8 name))

/-- A string. -/
def string (value : String) : Interning UInt16 := do
  entry (.named .string (← utf8 value))

/-- A name with a descriptor. -/
def nameAndType (name descriptor : String) : Interning UInt16 := do
  let name ← utf8 name
  let descriptor ← utf8 descriptor
  entry (.nameAndType name descriptor)

/-- A member of a class. -/
def member (kind : Pool.MemberKind) (owner name descriptor : String) : Interning UInt16 := do
  let owner ← classRef owner
  let signature ← nameAndType name descriptor
  entry (.member kind owner signature)

/-- A method of a class or of an interface. -/
def method (owner name descriptor : String) (interface : Bool) : Interning UInt16 :=
  member (if interface then .interfaceMethod else .method) owner name descriptor

end Interning

end ClassGraft
