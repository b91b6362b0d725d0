import ClassGraft.Bytes.Reader
import ClassGraft.Code.Instruction

/-!
# Reading bytecode

`Bytecode.instruction` reads one instruction whose jumps lead to offsets, and `Bytecode.all` reads
instructions up to the end of the code, with the offset at which each starts.
-/

namespace ClassGraft.Bytecode

/-- The target of a jump by a displacement from an offset. -/
def target (origin : Nat) (displacement : Int32) : Reader Nat :=
  let offset := (origin : Int) + displacement.toInt
  if 0 ≤ offset ∧ offset ≤ 65535 then return offset.toNat
  else Reader.malformed (.branchLeaves displacement.toInt origin)

/-- Skips to the next offset of the code that is a multiple of four.  The code starts at `base`. -/
def align (base : Nat) : Reader Unit := do
  let offset ← Reader.offset
  let _ ← Reader.take ((4 - (offset - base) % 4) % 4)

/-- The operands of a load, a store or a return from a subroutine in its long form, or of an
increment in its long form. -/
def widened (op : Opcode) : Reader (Instruction Nat) := do
  if op.isLoad || op.isStore || op == Opcode.ret then return .access op (← Reader.uint16)
  else if op == Opcode.iinc then return .increment (← Reader.uint16) (← Reader.int16)
  else Reader.malformed (.notWidened op)

/-- The operands of a switch over a range of keys. -/
def tableSwitch (base origin : Nat) : Reader (Instruction Nat) := do
  align base
  let otherwise ← target origin (← Reader.int32)
  let low ← Reader.int32
  let high ← Reader.int32
  if high < low then Reader.malformed (.switchBounds low high)
  let count := (high.toInt - low.toInt + 1).toNat
  let targets ← Reader.repeated count do target origin (← Reader.int32)
  return .tableSwitch otherwise low high targets

/-- The operands of a switch over a list of keys. -/
def lookupSwitch (base origin : Nat) : Reader (Instruction Nat) := do
  align base
  let otherwise ← target origin (← Reader.int32)
  let count ← Reader.int32
  if count < 0 then Reader.malformed .negativePairs
  let pairs ← Reader.repeated count.toInt.toNat do
    let key ← Reader.int32
    return (key, ← target origin (← Reader.int32))
  return .lookupSwitch otherwise pairs

/-- The operands of an opcode that has some; `origin` is the offset of the opcode in the code. -/
def operands (base origin : Nat) (op : Opcode) : Reader (Instruction Nat) := do
  if op == Opcode.bipush then return .bytePush (← Reader.int8)
  else if op == Opcode.sipush then return .shortPush (← Reader.int16)
  else if op == Opcode.ldc then return .constant (← Reader.uint8).toUInt16
  else if op == Opcode.ldcWide || op == Opcode.ldcDouble then return .constant (← Reader.uint16)
  else if op.isLoad || op.isStore || op == Opcode.ret then
    return .access op (← Reader.uint8).toUInt16
  else if op.isShortLoad then
    let (long, slot) := Opcode.expandShort Opcode.iload0 Opcode.iload op
    return .access long slot
  else if op.isShortStore then
    let (long, slot) := Opcode.expandShort Opcode.istore0 Opcode.istore op
    return .access long slot
  else if op == Opcode.iinc then
    return .increment (← Reader.uint8).toUInt16 (← Reader.int8).toInt16
  else if op.isCondition || op == Opcode.goto || op == Opcode.jsr then
    return .jump op (← target origin (← Reader.int16).toInt32)
  else if op == Opcode.gotoWide then
    return .jump Opcode.goto (← target origin (← Reader.int32))
  else if op == Opcode.jsrWide then
    return .jump Opcode.jsr (← target origin (← Reader.int32))
  else if op == Opcode.tableSwitch then tableSwitch base origin
  else if op == Opcode.lookupSwitch then lookupSwitch base origin
  else if Opcode.isBetween Opcode.getStatic Opcode.putField op then
    return .field op (← Reader.uint16)
  else if Opcode.isBetween Opcode.invokeVirtual Opcode.invokeStatic op then
    return .invoke op (← Reader.uint16)
  else if op == Opcode.invokeInterface then
    let index ← Reader.uint16
    let count ← Reader.uint8
    let _ ← Reader.uint8
    return .invokeInterface index count
  else if op == Opcode.invokeDynamic then
    let index ← Reader.uint16
    let _ ← Reader.uint16
    return .invokeDynamic index
  else if op == Opcode.newObject || op == Opcode.newObjectArray || op == Opcode.checkCast
      || op == Opcode.instanceOf then
    return .classOp op (← Reader.uint16)
  else if op == Opcode.newArray then return .newArray (← Reader.uint8)
  else if op == Opcode.wide then widened (← Reader.uint8)
  else if op == Opcode.newMultiArray then return .newMultiArray (← Reader.uint16) (← Reader.uint8)
  else Reader.malformed (.unknownOpcode op)

/-- The instruction that stands next, at `origin` in code that starts at `base`. -/
def instruction (base origin : Nat) : Reader (Instruction Nat) := do
  let op : Opcode ← Reader.uint8
  if op.isPlain then return .plain op else operands base origin op

/-- A malformed instruction is reported with its offset. -/
def located (origin : Nat) : ClassFault → ClassFault
  | .malformed cause => .malformed (.inBytecode cause origin)
  | fault => fault

/-- Reads instructions to the end, at most `fuel` of them, with those read so far in `found`, the
last one first. -/
def allFrom (base : Nat) : (fuel : Nat) → (found : List (Nat × Instruction Nat)) →
    Reader (List (Nat × Instruction Nat))
  | 0, found, cursor => .ok (found.reverse, cursor)
  | fuel + 1, found, cursor =>
    if cursor.rest.isEmpty then .ok (found.reverse, cursor)
    else
      let origin := cursor.offset - base
      match instruction base origin cursor with
      | .error fault => .error (located origin fault)
      | .ok (value, next) => allFrom base fuel ((origin, value) :: found) next

/-- The instructions up to the end, each with its offset in the code.  Every instruction takes at
least a byte, so there are no more of them than bytes. -/
def all : Reader (List (Nat × Instruction Nat)) := fun cursor =>
  allFrom cursor.offset cursor.rest.length [] cursor

end ClassGraft.Bytecode
