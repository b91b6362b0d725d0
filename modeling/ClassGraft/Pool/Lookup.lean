import ClassGraft.Pool.Basic

/-!
# Following references

What the constants at an index stand for once the references between them are followed: texts,
class names, names with descriptors, and members of classes.  Each answer is absent if some entry on
the way is missing or of another kind.
-/

namespace ClassGraft.Pool

/-- A member of a class as a constant names it. -/
structure Member where
  kind : MemberKind
  owner : Bytes
  name : Bytes
  descriptor : Bytes
  deriving DecidableEq, Repr

namespace Member

/-- Whether the member has these names, spelled in ordinary UTF-8. -/
def is (member : Member) (owner name descriptor : String) : Bool :=
  member.owner == Bytes.ofText owner && member.name == Bytes.ofText name
    && member.descriptor == Bytes.ofText descriptor

/-- The member as listings show it. -/
def text (member : Member) : String :=
  ModifiedUtf8.display member.owner ++ "." ++ ModifiedUtf8.display member.name ++ ":"
    ++ ModifiedUtf8.display member.descriptor

end Member

variable (pool : Pool)

/-- The bytes of the text at an index. -/
def utf8 (index : UInt16) : Option Bytes :=
  match pool.get index with
  | some (.utf8 bytes) => some bytes
  | _ => none

/-- What listings show for an index that leads nowhere. -/
def unknownText (index : UInt16) : String := s!"<#{index}>"

/-- The text at an index for display. -/
def utf8Text (index : UInt16) : String :=
  match pool.utf8 index with
  | some bytes => ModifiedUtf8.display bytes
  | none => unknownText index

/-- Whether the text at an index spells the given one, in ordinary or in modified UTF-8. -/
def utf8Is (index : UInt16) (text : String) : Bool :=
  match pool.utf8 index with
  | some bytes => bytes == Bytes.ofText text || bytes == ModifiedUtf8.encode text
  | none => false

/-- Whether the entry at an index is a class. -/
def isClass (index : UInt16) : Bool :=
  match pool.get index with
  | some (.named .classRef _) => true
  | _ => false

/-- The name of the class at an index. -/
def className (index : UInt16) : Option Bytes :=
  match pool.get index with
  | some (.named .classRef text) => pool.utf8 text
  | _ => none

/-- The name of the class at an index for display. -/
def classText (index : UInt16) : String :=
  match pool.className index with
  | some bytes => ModifiedUtf8.display bytes
  | none => unknownText index

/-- The name and the descriptor at an index. -/
def nameAndType (index : UInt16) : Option (Bytes × Bytes) :=
  match pool.get index with
  | some (.nameAndType name descriptor) => do
    return (← pool.utf8 name, ← pool.utf8 descriptor)
  | _ => none

/-- The member at an index. -/
def member (index : UInt16) : Option Member :=
  match pool.get index with
  | some (.member kind owner signature) => do
    let owner ← pool.className owner
    let (name, descriptor) ← pool.nameAndType signature
    return ⟨kind, owner, name, descriptor⟩
  | _ => none

/-- The member at an index for display. -/
def memberText (index : UInt16) : String :=
  match pool.member index with
  | some member => member.text
  | none => unknownText index

/-- The name and the descriptor of the computed constant at an index. -/
def dynamic (index : UInt16) : Option (Bytes × Bytes) :=
  match pool.get index with
  | some (.dynamic _ _ signature) => pool.nameAndType signature
  | _ => none

end ClassGraft.Pool
