import ClassGraft.Code.Opcode
import ClassGraft.Decimal.Shortest
import ClassGraft.Template.Basic
import ClassGraft.Text.Quoted

/-!
# Writing code templates

The text of a template, line by line.
-/

namespace ClassGraft

/-- The constant as the operand of a load. -/
def Constant.text : Constant → String
  | int value => Decimal.integer value.toInt
  | float bits => Decimal.single bits ++ "f"
  | long value => Decimal.integer value.toInt ++ "L"
  | double bits => Decimal.double bits ++ "d"
  | string value => Quoted.encode value
  | classRef name => "class " ++ name

/-- What stands between the mnemonic of a call and the method: interface calls need no mark. -/
def ownerMark (op : Opcode) (interface : Bool) : String :=
  if interface && op != Opcode.invokeInterface then "interface " else ""

/-- The text of the line. -/
def Line.text : Line → String
  | label name => name ++ ":"
  | plain op => op.name
  | bytePush value => "bipush " ++ Decimal.integer value.toInt
  | shortPush value => "sipush " ++ Decimal.integer value.toInt
  | constant value => "ldc " ++ value.text
  | access op slot => op.name ++ s!" {slot}"
  | increment slot delta => s!"iinc {slot} " ++ Decimal.integer delta.toInt
  | jump op target => op.name ++ " " ++ target
  | field op member => op.name ++ " " ++ member.text
  | invoke op member interface => op.name ++ " " ++ ownerMark op interface ++ member.text
  | classOp op name => op.name ++ " " ++ name
  | newArray element => "newarray " ++ ElementType.name element
  | newMultiArray name dimensions => "multianewarray " ++ name ++ s!" {dimensions}"

/-- The text of each line of a template. -/
def Template.lines (template : Template) : List String := template.map Line.text

end ClassGraft
