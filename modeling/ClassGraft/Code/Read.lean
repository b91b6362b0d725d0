import Std.Data.HashMap
import ClassGraft.Code.Body
import ClassGraft.Code.Bytecode
import ClassGraft.Pool.Lookup

/-!
# Reading method bodies

The body of a `Code` attribute: the code, the exception handlers, and nested attributes.  Offsets
become marks, which fails for one at which no instruction starts.  A table of lines or variables
that cannot be read is kept as its bytes, and a table of frames that cannot be read counts as empty.
-/

namespace ClassGraft

/-- The instructions that start at the offsets of some code. -/
structure Starts where
  codeLength : Nat
  index : Std.HashMap Nat Nat

namespace Starts

/-- The table of the offsets at which instructions start, in order. -/
def ofOffsets (codeLength : Nat) (offsets : List Nat) : Starts :=
  ⟨codeLength, offsets.zipIdx.foldl (fun index (offset, i) => index.insert offset i) ∅⟩

variable (starts : Starts)

/-- The mark of the instruction at an offset. -/
def mark? (offset : Nat) : Option Mark := starts.index[offset]?.map Mark.mk

/-- The mark of the instruction at an offset, where there must be one. -/
def mark (offset : Nat) : Reader Mark :=
  match starts.mark? offset with
  | some mark => return mark
  | none => Reader.malformed (.noInstruction offset)

/-- The place at an offset, which may also be the end of the code. -/
def place (offset : Nat) : Reader Place := do
  if offset = starts.codeLength then return .finish else return .at (← starts.mark offset)

/-- The instruction with marks in place of offsets.  If several offsets lead nowhere the last one
is reported. -/
def resolve (instruction : Instruction Nat) : Except ClassFault (Instruction Mark) :=
  match instruction.targets.reverse.find? fun offset => (starts.mark? offset).isNone with
  | some offset => .error (.malformed (.noInstruction offset))
  | none => .ok (instruction.mapTargets fun offset => (starts.mark? offset).getD ⟨0⟩)

end Starts

namespace Body

/-! ### Nested tables -/

/-- A range of code and where its exceptions go on. -/
def readHandler (starts : Starts) : Reader Handler := do
  let start ← starts.mark (← Reader.uint16).toNat
  let stop ← starts.place (← Reader.uint16).toNat
  let entry ← starts.mark (← Reader.uint16).toNat
  return ⟨start, stop, entry, ← Reader.uint16⟩

/-- The line of an instruction. -/
def readLine (starts : Starts) : Reader LineEntry := do
  let start ← starts.mark (← Reader.uint16).toNat
  return ⟨start, ← Reader.uint16⟩

/-- A local variable with the range where it exists. -/
def readVariable (starts : Starts) : Reader VariableEntry := do
  let offset := (← Reader.uint16).toNat
  let length := (← Reader.uint16).toNat
  let start ← starts.mark offset
  let stop ← starts.place (offset + length)
  return ⟨start, stop, ← Reader.uint16, ← Reader.uint16, ← Reader.uint16⟩

/-- The type of a slot in a declared frame. -/
def readType (starts : Starts) (pool : Pool) : Reader FrameType := do
  let tag ← Reader.uint8
  match tag.toNat with
  | 0 => return .top
  | 1 => return .int
  | 2 => return .float
  | 3 => return .double
  | 4 => return .long
  | 5 => return .null
  | 6 => return .uninitializedThis
  | 7 =>
    let index ← Reader.uint16
    match pool.className index with
    | some name => return .object name
    | none => Reader.malformed (.frameClass index)
  | 8 => return .uninitialized (← starts.mark (← Reader.uint16).toNat)
  | _ => Reader.malformed (.frameTypeTag tag)

/-- The distance of a declared frame from the one before it, and how it differs from that. -/
def readChange (starts : Starts) (pool : Pool) : Reader (Nat × FrameChange) := do
  let tag ← Reader.uint8
  let n := tag.toNat
  let type := readType starts pool
  if n < 64 then return (n, .same)
  else if n < 128 then return (n - 64, .sameOne (← type))
  else if n < 247 then Reader.malformed (.reservedFrame tag)
  else
    let distance := (← Reader.uint16).toNat
    if n = 247 then return (distance, .sameOne (← type))
    else if n < 251 then return (distance, .chop (251 - tag))
    else if n = 251 then return (distance, .same)
    else if n < 255 then return (distance, .append (← Reader.repeated (n - 251) type))
    else
      let locals ← Reader.list type
      return (distance, .full locals (← Reader.list type))

/-- Reads declared frames; the one before them stands at offset `previous`. -/
def readFramesFrom (starts : Starts) (pool : Pool) :
    (count : Nat) → (previous : Option Nat) → (found : List DeclaredFrame) →
    Reader (List DeclaredFrame)
  | 0, _, found => return found.reverse
  | count + 1, previous, found => do
    let (distance, change) ← readChange starts pool
    let offset := match previous with
      | none => distance
      | some previous => previous + distance + 1
    let mark ← starts.mark offset
    readFramesFrom starts pool count (some offset) (⟨mark, change⟩ :: found)

/-- The frames that a class declares for a method body. -/
def readFrames (starts : Starts) (pool : Pool) : Reader (List DeclaredFrame) := do
  let count ← Reader.uint16
  readFramesFrom starts pool count.toNat none []

/-- What a reader makes of all of the bytes, if it can. -/
def readWhole {α : Type} (reader : Reader α) (bytes : Bytes) : Option α :=
  match (do
    let value ← reader
    Reader.finished fun _ => .trailingInTable
    return value : Reader α) ⟨bytes, 0⟩ with
  | .ok (value, _) => some value
  | .error _ => none

/-- A nested attribute by its name and its bytes. -/
def attributeOf (starts : Starts) (pool : Pool) (index : UInt16) (name info : Bytes) :
    BodyAttribute :=
  let raw := BodyAttribute.other ⟨index, info⟩
  let readLocals (table : VariableTable) :=
    ((readWhole (Reader.list (readVariable starts)) info).map (.locals table index)).getD raw
  if name == Bytes.ofAscii "LineNumberTable" then
    ((readWhole (Reader.list (readLine starts)) info).map (.lines index)).getD raw
  else if name == Bytes.ofAscii "LocalVariableTable" then readLocals .descriptors
  else if name == Bytes.ofAscii "LocalVariableTypeTable" then readLocals .signatures
  else if name == Bytes.ofAscii "StackMapTable" then
    .frames index ((readWhole (readFrames starts pool) info).getD [])
  else raw

/-- A nested attribute. -/
def readAttribute (starts : Starts) (pool : Pool) : Reader BodyAttribute := do
  let index ← Reader.uint16
  let length ← Reader.uint32
  let info ← Reader.take length.toNat
  match pool.utf8 index with
  | some name => return attributeOf starts pool index name info
  | none => Reader.malformed (.codeAttributeName index)

/-! ### The body -/

/-- The method body in a `Code` attribute, whose name has the given index. -/
def read (name : UInt16) (pool : Pool) : Reader Body := do
  let encoded ← Reader.remaining
  let maxStack ← Reader.uint16
  let maxLocals ← Reader.uint16
  let length := (← Reader.uint32).toNat
  if length = 0 ∨ 65535 < length then Reader.malformed (.codeLength length)
  let code ← Reader.within length Bytecode.all
  let offsets := code.map (·.1)
  let starts := Starts.ofOffsets length offsets
  let instructions ← liftM (code.mapM fun (_, instruction) => starts.resolve instruction)
  let handlers ← Reader.list (readHandler starts)
  let attributes ← Reader.list (readAttribute starts pool)
  Reader.finished .trailingInCode
  return {
    name := name
    maxStack := maxStack
    maxLocals := maxLocals
    steps := instructions.zipIdx.map fun (instruction, i) => ⟨⟨i⟩, instruction⟩
    handlers := handlers
    attributes := attributes
    nextMark := instructions.length
    initialCount := instructions.length
    initialOffsets := offsets.map UInt16.ofNat
    encoded := some encoded
    modified := false }

end Body

end ClassGraft
