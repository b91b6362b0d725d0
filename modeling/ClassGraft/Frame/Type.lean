import ClassGraft.Code.Mark
import ClassGraft.Decimal.Integer
import ClassGraft.Descriptor

/-!
# Frame types

What a local slot or a stack word holds, as far as the verification of a class distinguishes it.  A
long or a double takes two slots, the second of which holds `top`.
-/

namespace ClassGraft

/-- The type of a local slot or of a stack word. -/
inductive FrameType where
  /-- Nothing that can be used. -/
  | top
  | int
  | float
  | long
  | double
  | null
  /-- The receiver of a constructor before the constructor of the super class ran. -/
  | uninitializedThis
  /-- A class by its name, or an array type by its descriptor. -/
  | object (name : Bytes)
  /-- What the marked instruction made, before its constructor ran. -/
  | uninitialized (mark : Mark)
  deriving DecidableEq, Repr

namespace FrameType

/-- Whether the type is one of references. -/
def isReference : FrameType → Bool
  | null | uninitializedThis | object _ | uninitialized _ => true
  | _ => false

/-- Whether a value of the type takes two slots. -/
def isWide : FrameType → Bool
  | long | double => true
  | _ => false

/-- The slots that a value of the type takes. -/
def size (type : FrameType) : Nat := if type.isWide then 2 else 1

/-- The type of a value. -/
def ofValue : ValueType → FrameType
  | .int => int
  | .float => float
  | .long => long
  | .double => double
  | .reference name => object name

/-- Numbers in brackets. -/
def listText (numbers : List Nat) : String :=
  "[" ++ String.intercalate ", " (numbers.map Decimal.natural) ++ "]"

/-- The type as messages show it. -/
def record : FrameType → String
  | top => "Top"
  | int => "Integer"
  | float => "Float"
  | long => "Long"
  | double => "Double"
  | null => "Null"
  | uninitializedThis => "UninitializedThis"
  | object name => "Object(" ++ listText (name.map UInt8.toNat) ++ ")"
  | uninitialized mark => "Uninitialized(" ++ mark.record ++ ")"

/-- The slots of values, in the order of a frame: each wide value is followed by its `top`. -/
def expand (types : List FrameType) : List FrameType :=
  types.flatMap fun type => if type.isWide then [type, top] else [type]

/-- The values of slots: the slot after a wide value is left out. -/
def collapse : List FrameType → List FrameType
  | [] => []
  | [type] => [type]
  | type :: second :: rest =>
    if type.isWide then type :: collapse rest else type :: collapse (second :: rest)

/-- Slots, the last one first, without unusable ones in front; the second slot of a wide value
stays. -/
def trimReversed : List FrameType → List FrameType
  | [] => []
  | [type] => if type = top then [] else [type]
  | last :: before :: rest =>
    if last = top ∧ !before.isWide then trimReversed (before :: rest) else last :: before :: rest

/-- Slots without unusable ones at the end; the second slot of a wide value stays. -/
def trim (slots : List FrameType) : List FrameType :=
  (trimReversed slots.reverse).reverse

end FrameType

end ClassGraft
