import ClassGraft.Fault
import ClassGraft.Frame.Fault

/-!
# Refusals

Why a class is refused before it is written: the code of a method cannot be given frames, or a
constant, a member or a size is not what it should be.  A refusal names the method and the
instruction where the flaw is, as far as there are any.
-/

namespace ClassGraft

/-- The parts of a class that refer to texts and classes of the pool. -/
inductive PoolRole where
  | thisClass
  | superClass
  | interface
  | fieldDescriptor
  | methodName
  | methodDescriptor
  deriving DecidableEq, Repr

/-- What is wrong with a class. -/
inductive Flaw where
  | frames (fault : FrameFault)
  | file (fault : ClassFault)
  /-- An index that does not lead to a text or a class. -/
  | badIndex (role : PoolRole) (index : UInt16)
  | noClassName
  | badField (signature : String)
  | badMethod
  | noConstant (index : UInt16)
  /-- A constant that an instruction cannot refer to. -/
  | badOperand (op : Opcode) (kind : Pool.Kind) (index : UInt16)
  | badCatchType (index : UInt16)
  | smallStack (needed given : UInt16)
  | fewLocals (needed given : UInt16)
  | duplicateField (signature : String)
  | duplicateMethod
  deriving DecidableEq, Repr

/-- The wording of an index that leads elsewhere. -/
def PoolRole.message (role : PoolRole) (index : UInt16) : String :=
  match role with
  | thisClass => s!"this class index {index} is not a class"
  | superClass => s!"super class index {index} is not a class"
  | interface => s!"interface index {index} is not a class"
  | fieldDescriptor => s!"field descriptor index {index} is not a Utf8 entry"
  | methodName => s!"method name index {index} is not a Utf8 entry"
  | methodDescriptor => s!"method descriptor index {index} is not a Utf8 entry"

/-- The wording of the flaw. -/
def Flaw.message : Flaw → String
  | frames fault => fault.message
  | file fault => fault.message
  | badIndex role index => role.message index
  | noClassName => "this class is not a class entry"
  | badField signature => "field \x60" ++ signature ++ "\x60 has an invalid name or descriptor"
  | badMethod => "invalid method name or descriptor"
  | noConstant index => s!"reference to missing constant #{index}"
  | badOperand op kind index => op.name ++ " can't refer to " ++ kind.label ++ s!" #{index}"
  | badCatchType index => s!"catch type #{index} is not a class"
  | smallStack needed given => s!"needs a stack of {needed} words, but max_stack is {given}"
  | fewLocals needed given => s!"needs {needed} local slots, but max_locals is {given}"
  | duplicateField signature => "duplicate field \x60" ++ signature ++ "\x60"
  | duplicateMethod => "duplicate method"

/-- A flaw of a class, and where it is. -/
structure Refusal where
  /-- The name and the descriptor of the method, for display. -/
  method : Option String
  /-- The index of the instruction. -/
  step : Option Nat
  flaw : Flaw
  deriving DecidableEq, Repr

namespace Refusal

/-- A flaw that does not belong to a method. -/
def ofFlaw (flaw : Flaw) : Refusal := ⟨none, none, flaw⟩

/-- A flaw of an instruction. -/
def atStep (step : Nat) (flaw : Flaw) : Refusal := ⟨none, some step, flaw⟩

/-- What keeps code from being given frames. -/
def ofObstacle (obstacle : Obstacle) : Refusal := ⟨none, obstacle.step, .frames obstacle.fault⟩

/-- The refusal of a method, unless it names one. -/
def inMethod (method : String) (refusal : Refusal) : Refusal :=
  { refusal with method := some (refusal.method.getD method) }

/-- The wording of the refusal. -/
def message (refusal : Refusal) : String :=
  let reason := refusal.flaw.message
  match refusal.method, refusal.step with
  | some method, some step =>
    "in method \x60" ++ method ++ s!"\x60 at instruction {step}: " ++ reason
  | some method, none => "in method \x60" ++ method ++ "\x60: " ++ reason
  | none, some step => s!"at instruction {step}: " ++ reason
  | none, none => reason

end Refusal

end ClassGraft
