import Std.Data.HashMap
import ClassGraft.Code.Opcode
import ClassGraft.Frame.Effect
import ClassGraft.Frame.Merge

/-!
# Executing instructions on types

`Scene.execute` gives the frame after an instruction.  Operands are taken from the stack by their
sizes; what they are is only looked at where it decides what comes next.
-/

namespace ClassGraft

/-- What executing the instructions of a method depends on. -/
structure Scene where
  pool : Pool
  hierarchy : Hierarchy
  head : MethodHead
  steps : Array Step
  /-- The index of the instruction with a mark. -/
  positions : Std.HashMap Mark Nat

namespace Frame

/-- Puts a value on the stack. -/
def push (frame : Frame) (type : FrameType) : Frame :=
  { frame with
    stack := if type.isWide then .top :: type :: frame.stack else type :: frame.stack }

/-- Puts a value on the stack, if there is one. -/
def pushAll (frame : Frame) (type : Option FrameType) : Frame := type.elim frame frame.push

/-- Takes the top word. -/
def pop (frame : Frame) : Except FrameFault (FrameType × Frame) :=
  match frame.stack with
  | [] => .error .underflow
  | word :: rest => .ok (word, { frame with stack := rest })

/-- Takes a number of words. -/
def drop (frame : Frame) (count : Nat) : Except FrameFault Frame :=
  if frame.stack.length < count then .error (.shortStack count frame.stack.length)
  else .ok { frame with stack := frame.stack.drop count }

/-- Takes operands of the given sizes, one after the other. -/
def dropEach : (operands : List Nat) → Frame → Except FrameFault Frame
  | [], frame => .ok frame
  | size :: rest, frame => do dropEach rest (← frame.drop size)

/-- Takes the arguments of a call, the last one first. -/
def dropArguments (frame : Frame) (type : MethodType) : Except FrameFault Frame :=
  dropEach (type.arguments.reverse.map ValueType.size) frame

/-- Whether a type is what a local is expected to hold. -/
def isExpected : Expected → FrameType → Bool
  | .int, type => type == .int
  | .long, type => type == .long
  | .float, type => type == .float
  | .double, type => type == .double
  | .reference, type => type.isReference

/-- The type that a local holds, which must be as expected. -/
def load (frame : Frame) (slot : UInt16) (expected : Expected) : Except FrameFault FrameType :=
  match frame.locals[slot.toNat]? with
  | some type =>
    if isExpected expected type then .ok type else .error (.wrongLocal slot type expected)
  | none => .error (.unwrittenLocal slot)

/-- Puts a value into a local.  A wide value before it that loses its second slot cannot be used
any more. -/
def store (frame : Frame) (slot : UInt16) (type : FrameType) : Frame :=
  let index := slot.toNat
  let front := frame.locals.take index
  let front := front ++ List.replicate (index - front.length) .top
  let front :=
    match front.getLast? with
    | some last => if last.isWide then front.dropLast ++ [.top] else front
    | none => front
  { frame with
    locals := front ++ FrameType.expand [type] ++ frame.locals.drop (index + type.size) }

/-- Lets every copy of a value count as an object of a class. -/
def construct (frame : Frame) (value : FrameType) (name : Bytes) : Frame :=
  let set (type : FrameType) : FrameType := if type = value then .object name else type
  ⟨frame.locals.map set, frame.stack.map set⟩

/-- The type of the elements of an array of references. -/
def elementOf : FrameType → Except FrameFault FrameType
  | .null => .ok .null
  | .object array =>
    match (Descriptor.element? array).bind Descriptor.field? with
    | some (.reference name) => .ok (.object name)
    | _ => .error (.noElements array)
  | type => .error (.notArray type)

end Frame

/-! ### Constants -/

namespace Pool

variable (pool : Pool)

/-- The type of the field at an index. -/
def fieldType (index : UInt16) : Except FrameFault FrameType :=
  match pool.member index with
  | none => .error (.notField index)
  | some member =>
    match Descriptor.field? member.descriptor with
    | some type => .ok (.ofValue type)
    | none => .error (.badField member)

/-- The class at an index, where there must be one. -/
def requireClass (index : UInt16) : Except FrameFault Bytes :=
  match pool.className index with
  | some name => .ok name
  | none => .error (.notClass index)

/-- A class that has to do with constants, by its name. -/
def constantClass (name : String) : FrameType := .object (Bytes.ofAscii ("java/lang/" ++ name))

/-- The type of a constant that is loaded. -/
def constantType (index : UInt16) : Except FrameFault FrameType :=
  match pool.get index with
  | some (.integer _) => .ok .int
  | some (.float _) => .ok .float
  | some (.long _) => .ok .long
  | some (.double _) => .ok .double
  | some (.named .string _) => .ok (constantClass "String")
  | some (.named .classRef _) => .ok (constantClass "Class")
  | some (.named .methodType _) => .ok (constantClass "invoke/MethodType")
  | some (.methodHandle _ _) => .ok (constantClass "invoke/MethodHandle")
  | some (.dynamic .value _ _) =>
    match pool.dynamic index with
    | none => .error (.badDynamic index)
    | some (_, descriptor) =>
      match Descriptor.field? descriptor with
      | some type => .ok (.ofValue type)
      | none => .error (.badDynamicType descriptor index)
  | some entry => .error (.notLoadable entry.kind index)
  | none => .error (.noConstant index)

end Pool

/-! ### Instructions -/

namespace Scene

variable (scene : Scene)

/-- The index of an instruction that is referred to. -/
def position (mark : Mark) : Except FrameFault Nat :=
  match scene.positions[mark]? with
  | some index => .ok index
  | none => .error (.noTarget mark)

/-- The class that a constructor call makes its receiver an object of. -/
def constructed (receiver : FrameType) : Except FrameFault Bytes :=
  match receiver with
  | .uninitializedThis => .ok scene.head.thisClass
  | .uninitialized mark => do
    let index ← scene.position mark
    match (scene.steps[index]?).map Step.instruction with
    | some (.classOp Opcode.newObject index) => scene.pool.requireClass index
    | _ => throw (.notNew mark)
  | type => .error (.initialized type)

/-- The frame after a call of a method with or without a receiver. -/
def call (frame : Frame) (hasReceiver : Bool) (index : UInt16) : Except FrameFault Frame := do
  let some member := scene.pool.member index | throw (.notMethod index)
  let some type := Descriptor.method? member.descriptor | throw (.badMethod member)
  let result := type.result.map FrameType.ofValue
  let frame ← frame.dropArguments type
  if !hasReceiver then return frame.pushAll result
  let (receiver, frame) ← frame.pop
  if !receiver.isReference then throw (.badReceiver member receiver)
  if member.name = constructorName then
    return (frame.construct receiver (← scene.constructed receiver)).pushAll result
  return frame.pushAll result

/-- The frame after a call at a computed call site. -/
def callComputed (frame : Frame) (index : UInt16) : Except FrameFault Frame := do
  let some (_, descriptor) := scene.pool.dynamic index | throw (.notCallSite index)
  let some type := Descriptor.method? descriptor | throw (.badCallSite descriptor)
  let frame ← frame.dropArguments type
  return frame.pushAll (type.result.map FrameType.ofValue)

/-- The frame after an effect. -/
def apply (frame : Frame) : Effect → Except FrameFault Frame
  | .compute operands value => do return (← frame.dropEach operands).pushAll value
  | .shuffle count depths =>
    if frame.stack.length < count then .error .underflow
    else
      .ok { frame with
        stack := depths.map (frame.stack.getD · .top) ++ frame.stack.drop count }
  | .loadReference => do
    let (array, frame) ← (← frame.drop 1).pop
    return frame.push (← Frame.elementOf array)
  | .finish =>
    if scene.head.name = constructorName ∧ frame.locals.contains .uninitializedThis then
      .error .noSuperCall
    else .ok frame

/-- The frame after a load or a store of a local variable. -/
def access (frame : Frame) (op : Opcode) (slot : UInt16) : Except FrameFault Frame :=
  let load (expected : Expected) : Except FrameFault Frame := do
    return frame.push (← frame.load slot expected)
  let store (type : FrameType) : Except FrameFault Frame := do
    return (← frame.drop type.size).store slot type
  match op with
  | Opcode.ret => .error .subroutine
  | Opcode.iload => load .int
  | Opcode.lload => load .long
  | Opcode.fload => load .float
  | Opcode.dload => load .double
  | Opcode.aload => load .reference
  | Opcode.istore => store .int
  | Opcode.lstore => store .long
  | Opcode.fstore => store .float
  | Opcode.dstore => store .double
  | Opcode.astore => do
    let (type, frame) ← frame.pop
    if type.isReference then return frame.store slot type else throw (.storedValue type)
  | op => .error (.notAccess op)

/-- The frame after a jump. -/
def jump (frame : Frame) (op : Opcode) : Except FrameFault Frame :=
  if op == Opcode.jsr then .error .subroutine
  else if op == Opcode.goto then .ok frame
  else if Opcode.isBetween Opcode.ifEq Opcode.ifLe op || op == Opcode.ifNull
      || op == Opcode.ifNonNull then frame.drop 1
  else if Opcode.isBetween Opcode.ifIntEq Opcode.ifRefNe op then frame.drop 2
  else .error (.notJump op)

/-- The frame after an access to a field; other opcodes count as a store to the field of an
object. -/
def accessField (frame : Frame) (op : Opcode) (index : UInt16) : Except FrameFault Frame := do
  let type ← scene.pool.fieldType index
  match op with
  | Opcode.getStatic => return frame.push type
  | Opcode.putStatic => frame.drop type.size
  | Opcode.getField => return (← frame.drop 1).push type
  | _ => (← frame.drop type.size).drop 1

/-- The frame after an instruction about a class; other opcodes count as a check. -/
def classOp (frame : Frame) (mark : Mark) (op : Opcode) (index : UInt16) :
    Except FrameFault Frame := do
  let name ← scene.pool.requireClass index
  match op with
  | Opcode.newObject => return frame.push (.uninitialized mark)
  | Opcode.newObjectArray => return (← frame.drop 1).push (.object (Descriptor.arrayOf name))
  | Opcode.checkCast => return (← frame.drop 1).push (.object name)
  | _ => return (← frame.drop 1).push .int

/-- The frame after an array of primitive values was made. -/
def newArray (frame : Frame) (element : UInt8) : Except FrameFault Frame := do
  let frame ← frame.drop 1
  match ElementType.arrayDescriptor? element with
  | some array => return frame.push (.object (Bytes.ofAscii array))
  | none => throw (.badElementType element)

/-- The frame after an array of several dimensions was made. -/
def newMultiArray (frame : Frame) (index : UInt16) (dimensions : UInt8) :
    Except FrameFault Frame := do
  let name ← scene.pool.requireClass index
  if dimensions = 0 ∨ (name.takeWhile (· == Descriptor.bracket)).length < dimensions.toNat then
    throw (.badDimensions name dimensions)
  return (← frame.drop dimensions.toNat).push (.object name)

/-- The frame after a step. -/
def execute (step : Step) (frame : Frame) : Except FrameFault Frame :=
  match step.instruction with
  | .plain op =>
    match op.effect? with
    | some effect => scene.apply frame effect
    | none => .error (.unknownOpcode op)
  | .bytePush _ | .shortPush _ => .ok (frame.push .int)
  | .constant index => do return frame.push (← scene.pool.constantType index)
  | .access op slot => access frame op slot
  | .increment slot _ => do
    let _ ← frame.load slot .int
    return frame
  | .jump op _ => jump frame op
  | .tableSwitch _ _ _ _ | .lookupSwitch _ _ => frame.drop 1
  | .field op index => scene.accessField frame op index
  | .invoke op index => scene.call frame (op != Opcode.invokeStatic) index
  | .invokeInterface index _ => scene.call frame true index
  | .invokeDynamic index => scene.callComputed frame index
  | .classOp op index => scene.classOp frame step.mark op index
  | .newArray element => newArray frame element
  | .newMultiArray index dimensions => scene.newMultiArray frame index dimensions

end Scene

end ClassGraft
