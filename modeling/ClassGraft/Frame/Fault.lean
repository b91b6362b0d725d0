import ClassGraft.Code.Opcode
import ClassGraft.Fault
import ClassGraft.Frame.Type
import ClassGraft.Pool.Lookup

/-!
# Faults of frames

Why code cannot be given frames: what goes wrong when an instruction is executed on types, when
paths meet, or in what the code declares.
-/

namespace ClassGraft

/-- What a local variable is expected to hold. -/
inductive Expected where
  | int
  | long
  | float
  | double
  | reference
  deriving DecidableEq, Repr

/-- The expectation in messages. -/
def Expected.text : Expected → String
  | int => "an int"
  | long => "a long"
  | float => "a float"
  | double => "a double"
  | reference => "a reference"

/-- Why code cannot be given frames. -/
inductive FrameFault where
  | noInstructions
  | badMethodDescriptor (descriptor : Bytes)
  /-- A declared frame that removes more locals than there are. -/
  | badChop (mark : Mark) (count locals : Nat)
  | noTarget (mark : Mark)
  | badCatchType (index : UInt16)
  /-- A fault that shows where control flows to an instruction. -/
  | flowingTo (target : Nat) (cause : FrameFault)
  | declaredHeight (found declared : Nat)
  | declaredStack (slot : Nat) (found declared : FrameType)
  | declaredLocal (slot : Nat) (found declared : FrameType)
  | heights (first second : Nat)
  | noCommonClass (first second : Bytes)
  | incompatible (first second : FrameType)
  /-- A fault of two words of the stack. -/
  | onStack (cause : FrameFault)
  | underflow
  | shortStack (needed height : Nat)
  | wrongLocal (slot : UInt16) (found : FrameType) (expected : Expected)
  | unwrittenLocal (slot : UInt16)
  | notField (index : UInt16)
  | badField (member : Pool.Member)
  | notClass (index : UInt16)
  | badDynamic (index : UInt16)
  | badDynamicType (descriptor : Bytes) (index : UInt16)
  | notLoadable (kind : Pool.Kind) (index : UInt16)
  | noConstant (index : UInt16)
  | notMethod (index : UInt16)
  | badMethod (member : Pool.Member)
  | badReceiver (member : Pool.Member) (found : FrameType)
  | notNew (mark : Mark)
  | initialized (found : FrameType)
  | noElements (array : Bytes)
  | notArray (found : FrameType)
  | noSuperCall
  | unknownOpcode (op : Opcode)
  | subroutine
  | storedValue (found : FrameType)
  | notAccess (op : Opcode)
  | notJump (op : Opcode)
  | notCallSite (index : UInt16)
  | badCallSite (descriptor : Bytes)
  | badElementType (type : UInt8)
  | badDimensions (name : Bytes) (dimensions : UInt8)
  | fallsOff
  | stackSize (words : Nat)
  | localsSize (slots : Nat)
  /-- The frames went on changing for longer than they can. -/
  | unsettled
  deriving DecidableEq, Repr

/-- The wording of the fault. -/
def FrameFault.message : FrameFault → String
  | noInstructions => "method has no instructions"
  | badMethodDescriptor descriptor =>
    "invalid method descriptor " ++ ModifiedUtf8.display descriptor
  | badChop mark count locals =>
    s!"declared frame at {mark.label} removes {count} of {locals} locals"
  | noTarget mark => s!"jump to {mark.label}, which is not an instruction of this method"
  | badCatchType index => s!"catch type {index} is not a class"
  | flowingTo target cause =>
    s!"where control flows to instruction {target}: " ++ cause.message
  | declaredHeight found declared =>
    s!"stack height {found} doesn't match the declared frame's {declared}"
  | declaredStack slot found declared =>
    s!"stack slot {slot} holds {found.record}, but the declared frame has {declared.record}"
  | declaredLocal slot found declared =>
    s!"local {slot} holds {found.record}, but the declared frame has {declared.record}"
  | heights first second => s!"inconsistent stack heights {first} and {second}"
  | noCommonClass first second =>
    "can't find a common super class of " ++ ModifiedUtf8.display first ++ " and "
      ++ ModifiedUtf8.display second
  | incompatible first second => s!"incompatible types {first.record} and {second.record}"
  | onStack cause => cause.message ++ " on the stack"
  | underflow => "stack underflow"
  | shortStack needed height =>
    s!"stack underflow: popping {needed} words from a stack of {height}"
  | wrongLocal slot found expected =>
    s!"local {slot} holds {found.record}, not " ++ expected.text
  | unwrittenLocal slot => s!"local {slot} was never written"
  | notField index => s!"#{index} is not a field reference"
  | badField member => "invalid field descriptor in " ++ member.text
  | notClass index => s!"#{index} is not a class"
  | badDynamic index => s!"dynamic constant #{index} is invalid"
  | badDynamicType descriptor index =>
    "invalid descriptor " ++ ModifiedUtf8.display descriptor ++ s!" of dynamic constant #{index}"
  | notLoadable kind index => s!"{kind.label} #{index} can't be loaded with ldc"
  | noConstant index => s!"ldc of missing constant #{index}"
  | notMethod index => s!"#{index} is not a method reference"
  | badMethod member => "invalid method descriptor in " ++ member.text
  | badReceiver member found => "receiver of " ++ member.text ++ " is " ++ found.record
  | notNew mark => "uninitialized value from " ++ mark.label ++ ", which is no \x60new\x60"
  | initialized found => "constructor call on already initialized " ++ found.record
  | noElements array => "aaload on " ++ ModifiedUtf8.display array
  | notArray found => "aaload on " ++ found.record
  | noSuperCall => "constructor returns without calling a super constructor"
  | unknownOpcode op => "unknown opcode " ++ showHex op.toNat
  | subroutine => "jsr and ret are not supported in modified code"
  | storedValue found => "astore of " ++ found.record
  | notAccess op => "opcode " ++ showHex op.toNat ++ " is no local variable access"
  | notJump op => "opcode " ++ showHex op.toNat ++ " is no jump"
  | notCallSite index => s!"#{index} is not an invokedynamic constant"
  | badCallSite descriptor =>
    "invalid descriptor " ++ ModifiedUtf8.display descriptor ++ " of invokedynamic"
  | badElementType type => s!"invalid array type {type}"
  | badDimensions name dimensions =>
    "multianewarray of " ++ ModifiedUtf8.display name ++ s!" with {dimensions} dimensions"
  | fallsOff => "execution falls off the end of the code"
  | stackSize words => s!"stack grows to {words} words"
  | localsSize slots => s!"{slots} local variable slots"
  | unsettled => "the frames do not settle"

/-- What keeps code from being given frames, and the index of the instruction where it shows. -/
structure Obstacle where
  step : Option Nat
  fault : FrameFault
  deriving DecidableEq, Repr

/-- A fault that does not belong to an instruction. -/
def Obstacle.anywhere (fault : FrameFault) : Obstacle := ⟨none, fault⟩

/-- A fault of an instruction. -/
def Obstacle.atStep (step : Nat) (fault : FrameFault) : Obstacle := ⟨some step, fault⟩

end ClassGraft
