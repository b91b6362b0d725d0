import ClassGraft.Frame.Fault
import ClassGraft.Hierarchy

/-!
# Frames

A frame holds the types of the local variables and of the operand stack before an instruction.  The
stack is listed from its top, so that operands are taken from the front of the list; messages and
tables count its words from the bottom.

`MethodHead.entryFrame` is the frame a method starts with.
-/

namespace ClassGraft

/-- The types of locals and of the stack. -/
structure Frame where
  locals : List FrameType
  /-- The words of the stack, the top one first. -/
  stack : List FrameType
  deriving DecidableEq, Repr

/-- What frames depend on of the method that code belongs to. -/
structure MethodHead where
  thisClass : Bytes
  name : Bytes
  descriptor : Bytes
  isStatic : Bool
  deriving DecidableEq, Repr

/-- The name of constructors. -/
def constructorName : Bytes := Bytes.ofAscii "<init>"

namespace Frame

/-- The words of the stack, the bottom one first. -/
def fromBottom (frame : Frame) : List FrameType := frame.stack.reverse

/-- The frame where an exception of a class is handled. -/
def catching (locals : List FrameType) (name : Bytes) : Frame := ⟨locals, [.object name]⟩

end Frame

namespace MethodHead

variable (head : MethodHead)

/-- The type of the receiver when the method starts. -/
def receiver : FrameType :=
  if head.name = constructorName ∧ head.thisClass ≠ objectName then .uninitializedThis
  else .object head.thisClass

/-- The frame that the method starts with. -/
def entryFrame : Except FrameFault Frame :=
  match Descriptor.method? head.descriptor with
  | none => .error (.badMethodDescriptor head.descriptor)
  | some type =>
    let arguments := FrameType.expand (type.arguments.map FrameType.ofValue)
    .ok ⟨if head.isStatic then arguments else head.receiver :: arguments, []⟩

end MethodHead

end ClassGraft

/-!
## Declared frames

A class declares frames as changes of the frame before, beginning with the one the method starts
with.  `Body.declaredFramesFrom` expands them.
-/

namespace ClassGraft

/-- The locals after a declared change and the stack; wide values are one type. -/
def DeclaredFrame.next (frame : DeclaredFrame) (locals : List FrameType) :
    Except FrameFault (List FrameType × List FrameType) :=
  match frame.change with
  | .same => .ok (locals, [])
  | .sameOne type => .ok (locals, [type])
  | .chop count =>
    if locals.length < count.toNat then
      .error (.badChop frame.mark count.toNat locals.length)
    else .ok (locals.take (locals.length - count.toNat), [])
  | .append types => .ok (locals ++ types, [])
  | .full locals stack => .ok (locals, stack)

/-- The frames that declared changes stand for, each with the mark of its instruction. -/
def expandChanges : (changes : List DeclaredFrame) → (locals : List FrameType) →
    Except FrameFault (List (Mark × Frame))
  | [], _ => .ok []
  | change :: rest, locals => do
    let (locals, stack) ← change.next locals
    let frame := Frame.mk (FrameType.expand locals) (FrameType.expand stack).reverse
    return (change.mark, frame) :: (← expandChanges rest locals)

/-- The locals of a frame as tables list them: without unusable ones at the end, and a wide value
as one type. -/
def Frame.listedLocals (frame : Frame) : List FrameType :=
  FrameType.collapse (FrameType.trim frame.locals)

/-- The stack of a frame as tables list it. -/
def Frame.listedStack (frame : Frame) : List FrameType :=
  FrameType.collapse frame.fromBottom

/-- The frames that a body declares, for a method that starts with the given frame. -/
def Body.declaredFramesFrom (body : Body) (entry : Frame) :
    Except FrameFault (List (Mark × Frame)) :=
  expandChanges body.declaredFrames entry.listedLocals

end ClassGraft
