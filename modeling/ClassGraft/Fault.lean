import ClassGraft.Code.Mark
import ClassGraft.Decimal.Integer
import ClassGraft.Pool.Kind
import ClassGraft.Text.ModifiedUtf8

/-!
# Faults of class files

Why bytes are no class file, why a class cannot be written, and why its constant pool cannot grow.
Each fault is a cause with its data; `message` gives its wording.
-/

namespace ClassGraft

/-- An opcode or another small number in hexadecimal. -/
def showHex (n : Nat) : String := "0x" ++ Decimal.hex n

/-- Why bytes do not have the form of a class file. -/
inductive Malformation where
  | badMagic (found : UInt32)
  | badVersion (major minor : UInt16)
  | noPool
  | unknownTag (tag : UInt8) (index : Nat)
  /-- A constant of two slots in the last slot. -/
  | wideAtEnd (kind : Pool.Kind) (index : Nat)
  /-- A constant that refers to one of a wrong kind, or to none. -/
  | badReference (kind : Pool.Kind) (index : Nat) (role : String) (target : UInt16)
    (found : Option Pool.Kind)
  | badHandleKind (index : Nat) (kind : UInt8)
  | notClass (role : String) (index : UInt16)
  | notUtf8 (role : String) (index : UInt16)
  | secondCode (method : Bytes)
  | trailing (count : Nat)
  | codeLength (length : Nat)
  | trailingInCode (count : Nat)
  | codeAttributeName (index : UInt16)
  /-- A fault of the instruction at an offset. -/
  | inBytecode (cause : Malformation) (offset : Nat)
  | noInstruction (offset : Nat)
  | branchLeaves (displacement : Int) (origin : Nat)
  | switchBounds (low high : Int32)
  | negativePairs
  | notWidened (opcode : UInt8)
  | unknownOpcode (opcode : UInt8)
  | trailingInTable
  | reservedFrame (tag : UInt8)
  | frameClass (index : UInt16)
  | frameTypeTag (tag : UInt8)
  deriving DecidableEq, Repr

/-- The wording of the malformation. -/
def Malformation.message : Malformation → String
  | .badMagic found =>
    "wrong magic 0x" ++ Decimal.padLeft '0' 8 (Decimal.hex found.toNat) ++ ", expected 0xcafebabe"
  | .badVersion major minor => s!"unsupported class file version {major}.{minor}"
  | .noPool => "constant pool count must be at least 1"
  | .unknownTag tag index => s!"unknown constant pool tag {tag} at index {index}"
  | .wideAtEnd kind index =>
    s!"{kind.label} at index {index} takes two slots, but the pool ends after it"
  | .badReference kind index role target (some found) =>
    s!"{kind.label} at index {index} has {role} {target} pointing to a {found.label}"
  | .badReference kind index role target none =>
    s!"{kind.label} at index {index} has {role} {target} pointing to no entry"
  | .badHandleKind index kind =>
    s!"MethodHandle at index {index} has invalid reference kind {kind}"
  | .notClass role index => s!"{role} index {index} is not a class"
  | .notUtf8 role index => s!"{role} index {index} is not a Utf8 entry"
  | .secondCode method =>
    "method " ++ ModifiedUtf8.display method ++ " has more than one Code attribute"
  | .trailing count => s!"{count} extra bytes after the end of the class file"
  | .codeLength length =>
    s!"`code_length` must be greater than zero and less than 65536, got {length}"
  | .trailingInCode count => s!"{count} extra bytes at the end of the Code attribute"
  | .codeAttributeName index => s!"attribute name index {index} doesn't point to a Utf8 entry"
  | .inBytecode cause offset => cause.message ++ s!" (at bytecode offset {offset})"
  | .noInstruction offset => s!"bytecode offset {offset} is not the start of an instruction"
  | .branchLeaves displacement origin =>
    s!"branch offset {displacement} from {origin} leaves the code"
  | .switchBounds low high =>
    s!"tableswitch with low {low.toInt} greater than high {high.toInt}"
  | .negativePairs => "lookupswitch with negative npairs"
  | .notWidened opcode => "opcode " ++ showHex opcode.toNat ++ " can't be used with `wide`"
  | .unknownOpcode opcode => "unknown opcode " ++ showHex opcode.toNat
  | .trailingInTable => "extra bytes after a table"
  | .reservedFrame tag => s!"reserved stack map frame type {tag}"
  | .frameClass index => s!"verification type refers to {index}, which is not a class"
  | .frameTypeTag tag => s!"unknown verification type tag {tag}"

/-- Why a class cannot be written. -/
inductive EncodingFault where
  | codeTooLong (size : Nat)
  | codeLength (length : Nat)
  | notJump (opcode : UInt8)
  | switchBounds (low high : Int32)
  | switchTargets (cases targets : Nat)
  | unsortedKeys
  | tooManyPairs (count : Nat)
  | noInstruction (mark : Mark)
  /-- A number that does not fit into the given number of bits. -/
  | tooLarge (value bits : Nat)
  | noFrame (index : Nat)
  | stale (method : String)
  deriving DecidableEq, Repr

/-- The wording of the fault. -/
def EncodingFault.message : EncodingFault → String
  | .codeTooLong size => s!"code size exceeded u16::MAX: {size}"
  | .codeLength length =>
    s!"`code_length` must be greater than zero and less than 65536, got {length}"
  | .notJump opcode => "opcode " ++ showHex opcode.toNat ++ " is not a jump"
  | .switchBounds low high =>
    s!"tableswitch `low` {low.toInt} must be lower or equal to `high` {high.toInt}"
  | .switchTargets cases targets =>
    s!"tableswitch bounds span {cases} cases, but there are {targets} targets"
  | .unsortedKeys => "lookupswitch keys must be sorted and unique"
  | .tooManyPairs count => s!"lookupswitch with {count} pairs"
  | .noInstruction mark => s!"no instruction with id {mark.label}"
  | .tooLarge value bits =>
    s!"failed to convert {value} to u{bits} for writing: value too large"
  | .noFrame index => s!"no frame for instruction {index}"
  | .stale method => s!"code of method {method} was modified, but not encoded again"

/-- Why a class file cannot be read, changed or written. -/
inductive ClassFault where
  | malformed (cause : Malformation)
  /-- The bytes end before a part is complete. -/
  | truncated (offset needed available : Nat)
  /-- The constant pool has no room for another constant. -/
  | poolFull (kind : Pool.Kind) (index : Nat)
  | unencodable (cause : EncodingFault)
  | badText (cause : BadSequence)
  deriving DecidableEq, Repr

/-- The wording of the fault. -/
def ClassFault.message : ClassFault → String
  | .malformed cause => "malformed class file: " ++ cause.message
  | .truncated offset needed available =>
    s!"truncated input: needed {needed} bytes at offset {offset}, but only {available} remain"
  | .poolFull kind index =>
    s!"constant pool overflow: adding {kind.label} at index {index} "
      ++ "exceeds the limit of 65534 pool slots"
  | .unencodable cause => "cannot encode: " ++ cause.message
  | .badText cause => "invalid modified utf-8: " ++ cause.message

end ClassGraft
