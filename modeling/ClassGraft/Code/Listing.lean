import ClassGraft.Code.Opcode
import ClassGraft.Code.Instruction
import ClassGraft.Decimal.Shortest
import ClassGraft.Pool.Lookup
import ClassGraft.Text.Quoted

/-!
# Instructions as text

An instruction in a listing is its mnemonic followed by its operands, with constants shown by what
they stand for.
-/

namespace ClassGraft

/-- The constant at an index as the operand of a load. -/
def Pool.constantText (pool : Pool) (index : UInt16) : String :=
  match pool.get index with
  | some (.named .string text) => Quoted.encode (pool.utf8Text text)
  | some (.integer value) => Decimal.integer value.toInt
  | some (.long value) => Decimal.integer value.toInt ++ "L"
  | some (.float bits) => Decimal.single bits ++ "f"
  | some (.double bits) => Decimal.double bits ++ "d"
  | some (.named .classRef _) => "class " ++ pool.classText index
  | some entry => entry.kind.label ++ s!" #{index}"
  | none => Pool.unknownText index

/-- The name and the descriptor of the computed constant at an index. -/
def Pool.dynamicText (pool : Pool) (index : UInt16) : String :=
  match pool.dynamic index with
  | some (name, descriptor) =>
    ModifiedUtf8.display name ++ ":" ++ ModifiedUtf8.display descriptor
  | none => Pool.unknownText index

namespace Instruction

/-- The cases of a switch in braces. -/
def casesText (cases : List (Int × Mark)) (otherwise : Mark) : String :=
  let cases := cases.map fun (key, target) => Decimal.integer key ++ ": " ++ target.label
  "\x7b " ++ String.intercalate ", " cases ++ ", default: " ++ otherwise.label ++ " \x7d"

/-- The keys of a table switch with their targets. -/
def tableCases (low high : Int) (targets : List Mark) : List (Int × Mark) :=
  (targets.take (high - low + 1).toNat).zipIdx.map fun (target, i) => (low + (i : Int), target)

/-- The operands of the instruction, with a blank in front. -/
def operandsText (pool : Pool) : Instruction Mark → String
  | plain _ => ""
  | bytePush value => " " ++ Decimal.integer value.toInt
  | shortPush value => " " ++ Decimal.integer value.toInt
  | constant index => " " ++ pool.constantText index
  | access _ slot => s!" {slot}"
  | increment slot delta => s!" {slot} " ++ Decimal.integer delta.toInt
  | jump _ target => " " ++ target.label
  | tableSwitch otherwise low high targets =>
    " " ++ casesText (tableCases low.toInt high.toInt targets) otherwise
  | lookupSwitch otherwise pairs =>
    " " ++ casesText (pairs.map fun (key, target) => (key.toInt, target)) otherwise
  | field _ index | invoke _ index | invokeInterface index _ => " " ++ pool.memberText index
  | invokeDynamic index => " " ++ pool.dynamicText index
  | classOp _ index => " " ++ pool.classText index
  | newArray element => " " ++ ElementType.name element
  | newMultiArray index dimensions => " " ++ pool.classText index ++ s!" {dimensions}"

/-- The instruction as listings show it. -/
def text (pool : Pool) (instruction : Instruction Mark) : String :=
  instruction.opcode.name ++ instruction.operandsText pool

end Instruction

end ClassGraft
