import ClassGraft.Code.Instruction
import ClassGraft.Decimal.Binary

/-!
# Code templates

A template is code with symbolic operands: labels in place of targets, and members, classes and
constants by what they are instead of by an index.  It is written with one label or instruction per
line.
-/

namespace ClassGraft

/-- A member of a class by its names. -/
structure MemberName where
  owner : String
  name : String
  descriptor : String
  deriving DecidableEq, Repr

/-- The member as templates and messages show it. -/
def MemberName.text (member : MemberName) : String :=
  member.owner ++ "." ++ member.name ++ ":" ++ member.descriptor

/-- A constant that is loaded. -/
inductive Constant where
  | int (value : Int32)
  | float (bits : UInt32)
  | long (value : Int64)
  | double (bits : UInt64)
  | string (value : String)
  | classRef (name : String)
  deriving DecidableEq, Repr

/-- A line of a template. -/
inductive Line where
  /-- A name for the place of the next instruction. -/
  | label (name : String)
  | plain (op : Opcode)
  | bytePush (value : Int8)
  | shortPush (value : Int16)
  | constant (value : Constant)
  | access (op : Opcode) (slot : UInt16)
  | increment (slot : UInt16) (delta : Int16)
  | jump (op : Opcode) (label : String)
  | field (op : Opcode) (member : MemberName)
  /-- A call; the owner is an interface or not. -/
  | invoke (op : Opcode) (member : MemberName) (interface : Bool)
  | classOp (op : Opcode) (name : String)
  | newArray (element : UInt8)
  | newMultiArray (name : String) (dimensions : UInt8)
  deriving DecidableEq, Repr

/-- The lines of a template. -/
abbrev Template := List Line

/-- The name of a label line. -/
def Line.label? : Line → Option String
  | .label name => some name
  | _ => none

/-- Whether the line loads a float or a double that is no number. -/
def Line.loadsNaN : Line → Bool
  | .constant (.float bits) => 0x7F800000 < (bits &&& 0x7FFFFFFF)
  | .constant (.double bits) => 0x7FF0000000000000 < (bits &&& 0x7FFFFFFFFFFFFFFF)
  | _ => false

end ClassGraft
