/-!
# Kinds of constants

The constant pool of a class file holds entries of seventeen kinds.  Each kind has a tag byte, with
which its entries start in the file, and a label for messages; `Kind.ofTag?` finds the kind of a
tag and undoes `Kind.tag` (`Kind.ofTag?_tag`).
-/

namespace ClassGraft.Pool

/-- The kinds of constants. -/
inductive Kind where
  | utf8
  | integer
  | float
  | long
  | double
  | classRef
  | string
  | field
  | method
  | interfaceMethod
  | nameAndType
  | methodHandle
  | methodType
  | dynamic
  | invokeDynamic
  | moduleRef
  | packageRef
  deriving DecidableEq, Repr, Hashable

namespace Kind

/-- The byte that entries of the kind start with. -/
def tag : Kind → UInt8
  | utf8 => 1
  | integer => 3
  | float => 4
  | long => 5
  | double => 6
  | classRef => 7
  | string => 8
  | field => 9
  | method => 10
  | interfaceMethod => 11
  | nameAndType => 12
  | methodHandle => 15
  | methodType => 16
  | dynamic => 17
  | invokeDynamic => 18
  | moduleRef => 19
  | packageRef => 20

/-- The name of the kind in messages. -/
def label : Kind → String
  | utf8 => "Utf8"
  | integer => "Integer"
  | float => "Float"
  | long => "Long"
  | double => "Double"
  | classRef => "Class"
  | string => "String"
  | field => "Fieldref"
  | method => "Methodref"
  | interfaceMethod => "InterfaceMethodref"
  | nameAndType => "NameAndType"
  | methodHandle => "MethodHandle"
  | methodType => "MethodType"
  | dynamic => "Dynamic"
  | invokeDynamic => "InvokeDynamic"
  | moduleRef => "Module"
  | packageRef => "Package"

/-- All kinds, by ascending tag. -/
def all : List Kind :=
  [utf8, integer, float, long, double, classRef, string, field, method, interfaceMethod,
    nameAndType, methodHandle, methodType, dynamic, invokeDynamic, moduleRef, packageRef]

/-- The kind that a tag announces. -/
def ofTag? (tag : UInt8) : Option Kind :=
  all.find? (·.tag == tag)

/-- Whether an entry of the kind takes two slots of the pool. -/
def isWide : Kind → Bool
  | long | double => true
  | _ => false

theorem ofTag?_tag (kind : Kind) : ofTag? kind.tag = some kind := by
  cases kind <;> rfl

end Kind

end ClassGraft.Pool
