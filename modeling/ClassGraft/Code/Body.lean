import ClassGraft.Code.Instruction
import ClassGraft.Frame.Type

/-!
# Method bodies

The contents of a `Code` attribute: marked instructions, exception handlers, and the tables that
refer to instructions by their marks.  Instructions can be inserted at any place without touching
what refers to others; offsets only exist in bytes.

`Body.insertBefore` and `Body.insertAfter` insert, `Body.retarget` lets everything that refers to
the start of one instruction refer to another, and `Body.replace` exchanges all instructions.
-/

namespace ClassGraft

/-- An attribute whose contents are not looked at. -/
structure RawAttribute where
  name : UInt16
  info : Bytes
  deriving DecidableEq, Repr

/-- An instruction with its mark. -/
structure Step where
  mark : Mark
  instruction : Instruction Mark
  deriving DecidableEq, Repr, Inhabited

/-- A range of instructions and where exceptions thrown in it go on. -/
structure Handler where
  start : Mark
  stop : Place
  entry : Mark
  /-- The index of the class that is caught, or 0 for all. -/
  catchType : UInt16
  deriving DecidableEq, Repr

/-- The source line that starts at an instruction. -/
structure LineEntry where
  start : Mark
  line : UInt16
  deriving DecidableEq, Repr

/-- A local variable within a range of instructions. -/
structure VariableEntry where
  start : Mark
  stop : Place
  name : UInt16
  /-- The index of its descriptor, or of its generic signature. -/
  descriptor : UInt16
  slot : UInt16
  deriving DecidableEq, Repr

/-- How a declared frame differs from the one before it.  A long or a double is one type here. -/
inductive FrameChange where
  | same
  /-- The same locals, and one value on the stack. -/
  | sameOne (type : FrameType)
  /-- Without the last locals. -/
  | chop (count : UInt8)
  | append (types : List FrameType)
  | full (locals stack : List FrameType)
  deriving DecidableEq, Repr

/-- A frame that the class declares for an instruction. -/
structure DeclaredFrame where
  mark : Mark
  change : FrameChange
  deriving DecidableEq, Repr

/-- Which of the two tables of local variables. -/
inductive VariableTable where
  | descriptors
  | signatures
  deriving DecidableEq, Repr

/-- An attribute of a method body. -/
inductive BodyAttribute where
  | lines (name : UInt16) (entries : List LineEntry)
  | locals (table : VariableTable) (name : UInt16) (entries : List VariableEntry)
  | frames (name : UInt16) (entries : List DeclaredFrame)
  /-- Any other one; it may hold offsets, so it does not outlive a change. -/
  | other (raw : RawAttribute)
  deriving DecidableEq, Repr

/-- The name and the entries of a table of frames. -/
def BodyAttribute.frames? : BodyAttribute → Option (UInt16 × List DeclaredFrame)
  | .frames name entries => some (name, entries)
  | _ => none

/-- A method body. -/
structure Body where
  /-- The index of the text `Code`. -/
  name : UInt16
  maxStack : UInt16
  maxLocals : UInt16
  steps : List Step
  handlers : List Handler
  attributes : List BodyAttribute
  /-- The number of the next mark to be given out, which only grows (see `Mark`). -/
  nextMark : Nat
  /-- Marks with a lower number were there from the start. -/
  initialCount : Nat
  /-- The offsets of the instructions in the bytes that were read. -/
  initialOffsets : List UInt16
  /-- The bytes of the attribute, as long as they are up to date. -/
  encoded : Option Bytes
  modified : Bool
  deriving DecidableEq, Repr

namespace Body

/-- The body without instructions. -/
def new (name : UInt16) : Body where
  name := name
  maxStack := 0
  maxLocals := 0
  steps := []
  handlers := []
  attributes := []
  nextMark := 0
  initialCount := 0
  initialOffsets := []
  encoded := none
  modified := true

variable (body : Body)

/-- Records a change, after which the bytes are out of date. -/
def touch : Body := { body with modified := true, encoded := none }

/-! ### Marks -/

/-- A mark that was never given out before. -/
def fresh : Mark × Body :=
  (⟨body.nextMark⟩, { body with nextMark := body.nextMark + 1 })

/-- Gives each instruction a mark of its own. -/
def markAll (instructions : List (Instruction Mark)) : List Step × Body :=
  (instructions.zipIdx.map fun (instruction, i) => ⟨⟨body.nextMark + i⟩, instruction⟩,
    { body with nextMark := body.nextMark + instructions.length })

/-- Whether the mark was there from the start. -/
def isInitial (mark : Mark) : Bool := mark.number < body.initialCount

/-- Lets all instructions count as there from the start. -/
def settle : Body := { body with initialCount := body.nextMark }

/-- The mark that the instruction at an index had at the start. -/
def initialAtIndex? (index : Nat) : Option Mark :=
  if index < body.initialCount then some ⟨index⟩ else none

/-- The mark of the instruction that started at an offset. -/
def initialAtOffset? (offset : UInt16) : Option Mark :=
  (body.initialOffsets.findIdx? (· == offset)).map Mark.mk

/-- The index of the instruction with a mark. -/
def position? (mark : Mark) : Option Nat :=
  body.steps.findIdx? (·.mark == mark)

/-- The instruction with a mark. -/
def step? (mark : Mark) : Option Step :=
  body.steps.find? (·.mark == mark)

/-- Whether there is an instruction with a mark. -/
def has (mark : Mark) : Bool := (body.step? mark).isSome

/-- The frames that the class declares, in order. -/
def declaredFrames : List DeclaredFrame :=
  ((body.attributes.findSome? BodyAttribute.frames?).map (·.2)).getD []

end Body

/-! ### Moving references -/

/-- One mark in place of another. -/
def Mark.move (source target mark : Mark) : Mark := if mark = source then target else mark

/-- One mark in place of another. -/
def Place.move (source target : Mark) : Place → Place
  | .at mark => .at (Mark.move source target mark)
  | .finish => .finish

/-- The attribute with one mark in place of another, except inside types. -/
def BodyAttribute.move (source target : Mark) : BodyAttribute → BodyAttribute
  | .lines name entries =>
    .lines name (entries.map fun entry =>
      { entry with start := Mark.move source target entry.start })
  | .locals table name entries =>
    .locals table name (entries.map fun entry =>
      { entry with
        start := Mark.move source target entry.start
        stop := Place.move source target entry.stop })
  | .frames name entries =>
    .frames name (entries.map fun entry =>
      { entry with mark := Mark.move source target entry.mark })
  | .other raw => .other raw

namespace Body

variable (body : Body)

/-- Lets everything that refers to the start of `source` refer to `target`: jumps, the ends of
exception ranges, and the tables.  Handlers that start at `source` stay there. -/
def retarget (source target : Mark) : Body :=
  { body with
    steps := body.steps.map fun step =>
      { step with instruction := step.instruction.mapTargets (Mark.move source target) }
    handlers := body.handlers.map fun handler =>
      { handler with
        start := Mark.move source target handler.start
        stop := Place.move source target handler.stop }
    attributes := body.attributes.map (BodyAttribute.move source target) }

/-! ### Changing instructions -/

/-- Inserts steps in front of the step at an index. -/
def insertAt (index : Nat) (steps : List Step) : Body :=
  { body.touch with steps := body.steps.take index ++ steps ++ body.steps.drop index }

/-- Inserts steps before an instruction; with `redirect`, what refers to its start refers to the
first of them.  Absent if there is no such instruction. -/
def insertBefore (anchor : Mark) (steps : List Step) (redirect : Bool) : Option Body :=
  (body.position? anchor).map fun index =>
    match redirect, steps with
    | true, first :: _ => (body.retarget anchor first.mark).insertAt index steps
    | _, _ => body.insertAt index steps

/-- Inserts steps after an instruction.  Absent if there is no such instruction. -/
def insertAfter (anchor : Mark) (steps : List Step) : Option Body :=
  (body.position? anchor).map fun index => body.insertAt (index + 1) steps

/-- What an attribute becomes when the instructions it speaks of are gone: of the frames the
table stays, without entries. -/
def clearAttribute : BodyAttribute → Option BodyAttribute
  | .frames name _ => some (.frames name [])
  | _ => none

/-- Exchanges all instructions and handlers, and drops the tables that speak of the old ones. -/
def replace (steps : List Step) (handlers : List Handler) : Body :=
  { body.touch with
    steps := steps
    handlers := handlers
    attributes := body.attributes.filterMap clearAttribute }

end Body

end ClassGraft
