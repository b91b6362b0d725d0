import ClassGraft.Decimal.Shortest
import ClassGraft.Fault
import ClassGraft.Text.Quoted

/-!
# Faults of code templates

Why a line is no line of a template, and why a template cannot be read or used.
-/

namespace ClassGraft

/-- Why a text is no line of a template. -/
inductive LineFault where
  | unknownInstruction (mnemonic : String)
  | operandCount (mnemonic : String) (expected found : Nat)
  | badNumber (text : String) (fault : IntegerFault)
  | noConstant (mnemonic : String)
  | badString (fault : QuoteFault)
  | badInteger (text : String) (fault : IntegerFault)
  | badFloat (text : String) (fault : FloatFault)
  | badLabel (text : String)
  | badMember (text : String)
  | noMethod (mnemonic operands : String)
  | unknownElement (name : String)
  | unusable (mnemonic : String)
  deriving DecidableEq, Repr

/-- The wording of the fault. -/
def LineFault.message : LineFault → String
  | unknownInstruction mnemonic => "unknown instruction `" ++ mnemonic ++ "`"
  | operandCount mnemonic expected found =>
    "`" ++ mnemonic ++ s!"` takes {expected} operand(s), got {found}"
  | badNumber text fault => "invalid number `" ++ text ++ "`: " ++ fault.message
  | noConstant mnemonic => "`" ++ mnemonic ++ "` needs a constant"
  | badString fault => fault.message
  | badInteger text fault => "invalid constant `" ++ text ++ "`: " ++ fault.message
  | badFloat text fault => "invalid constant `" ++ text ++ "`: " ++ fault.message
  | badLabel text => "invalid label `" ++ text ++ "`"
  | badMember text => "expected `owner.name:descriptor`, got `" ++ text ++ "`"
  | noMethod mnemonic operands => "`" ++ mnemonic ++ "` takes a method, got `" ++ operands ++ "`"
  | unknownElement name => "unknown array type `" ++ name ++ "`"
  | unusable mnemonic => "`" ++ mnemonic ++ "` can't be used in code templates"

/-- Why a template cannot be read or used. -/
inductive TemplateFault where
  | atLine (number : Nat) (fault : LineFault)
  | repeatedLabel (number : Nat) (label : String) (first : Nat)
  /-- A label after the last instruction. -/
  | danglingLabel (label : String)
  | badDescriptor (descriptor : String)
  | tooManyArguments (descriptor : String)
  /-- A constant that cannot be added. -/
  | file (fault : ClassFault)
  deriving DecidableEq, Repr

/-- The wording of the fault. -/
def TemplateFault.message : TemplateFault → String
  | atLine number fault => s!"line {number}: " ++ fault.message
  | repeatedLabel number label first =>
    s!"line {number}: label `" ++ label ++ s!"` is already defined on line {first}"
  | danglingLabel label => "label `" ++ label ++ "` isn't followed by an instruction"
  | badDescriptor descriptor => "invalid method descriptor `" ++ descriptor ++ "`"
  | tooManyArguments descriptor =>
    "too many arguments for invokeinterface: `" ++ descriptor ++ "`"
  | file fault => fault.message

end ClassGraft
