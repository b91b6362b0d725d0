import ClassGraft.Code.Opcode

/-!
# Kinds of calls

The four instructions that call a method which the class file names.
-/

namespace ClassGraft

/-- How a method is called. -/
inductive CallKind where
  | virtual
  | special
  | static
  | interface
  deriving DecidableEq, Repr

namespace CallKind

/-- The opcode of a call. -/
def opcode : CallKind → Opcode
  | virtual => Opcode.invokeVirtual
  | special => Opcode.invokeSpecial
  | static => Opcode.invokeStatic
  | interface => Opcode.invokeInterface

/-- The kind of call that an opcode makes. -/
def ofOpcode? (op : Opcode) : Option CallKind :=
  [virtual, special, static, interface].find? (·.opcode == op)

/-- Whether the call takes a receiver before its arguments. -/
def hasReceiver : CallKind → Bool
  | static => false
  | _ => true

/-- The name of the kind in patches. -/
def name : CallKind → String
  | virtual => "virtual"
  | special => "special"
  | static => "static"
  | interface => "interface"

theorem ofOpcode?_opcode (kind : CallKind) : ofOpcode? kind.opcode = some kind := by
  cases kind <;> rfl

end CallKind

end ClassGraft
