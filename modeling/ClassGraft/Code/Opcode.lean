import ClassGraft.Bytes.BigEndian

/-!
# Opcodes

The byte that an instruction starts with, its mnemonic, and the groups of opcodes that are treated
alike.  Inverting a condition twice gives it back (`inverse?_inverse?`).
-/

namespace ClassGraft

/-- The byte that tells what an instruction does. -/
abbrev Opcode := UInt8

namespace Opcode

@[match_pattern] def nop : Opcode := 0x00
@[match_pattern] def dconst1 : Opcode := 0x0f
@[match_pattern] def bipush : Opcode := 0x10
@[match_pattern] def sipush : Opcode := 0x11
@[match_pattern] def ldc : Opcode := 0x12
@[match_pattern] def ldcWide : Opcode := 0x13
@[match_pattern] def ldcDouble : Opcode := 0x14
@[match_pattern] def iload : Opcode := 0x15
@[match_pattern] def lload : Opcode := 0x16
@[match_pattern] def fload : Opcode := 0x17
@[match_pattern] def dload : Opcode := 0x18
@[match_pattern] def aload : Opcode := 0x19
@[match_pattern] def iload0 : Opcode := 0x1a
@[match_pattern] def aload3 : Opcode := 0x2d
@[match_pattern] def iaload : Opcode := 0x2e
@[match_pattern] def saload : Opcode := 0x35
@[match_pattern] def istore : Opcode := 0x36
@[match_pattern] def lstore : Opcode := 0x37
@[match_pattern] def fstore : Opcode := 0x38
@[match_pattern] def dstore : Opcode := 0x39
@[match_pattern] def astore : Opcode := 0x3a
@[match_pattern] def istore0 : Opcode := 0x3b
@[match_pattern] def astore3 : Opcode := 0x4e
@[match_pattern] def iastore : Opcode := 0x4f
@[match_pattern] def lxor : Opcode := 0x83
@[match_pattern] def iinc : Opcode := 0x84
@[match_pattern] def i2l : Opcode := 0x85
@[match_pattern] def dcmpg : Opcode := 0x98
@[match_pattern] def ifEq : Opcode := 0x99
@[match_pattern] def ifNe : Opcode := 0x9a
@[match_pattern] def ifLt : Opcode := 0x9b
@[match_pattern] def ifGe : Opcode := 0x9c
@[match_pattern] def ifGt : Opcode := 0x9d
@[match_pattern] def ifLe : Opcode := 0x9e
@[match_pattern] def ifIntEq : Opcode := 0x9f
@[match_pattern] def ifIntNe : Opcode := 0xa0
@[match_pattern] def ifIntLt : Opcode := 0xa1
@[match_pattern] def ifIntGe : Opcode := 0xa2
@[match_pattern] def ifIntGt : Opcode := 0xa3
@[match_pattern] def ifIntLe : Opcode := 0xa4
@[match_pattern] def ifRefEq : Opcode := 0xa5
@[match_pattern] def ifRefNe : Opcode := 0xa6
@[match_pattern] def goto : Opcode := 0xa7
@[match_pattern] def jsr : Opcode := 0xa8
@[match_pattern] def ret : Opcode := 0xa9
@[match_pattern] def tableSwitch : Opcode := 0xaa
@[match_pattern] def lookupSwitch : Opcode := 0xab
@[match_pattern] def ireturn : Opcode := 0xac
@[match_pattern] def returnVoid : Opcode := 0xb1
@[match_pattern] def getStatic : Opcode := 0xb2
@[match_pattern] def putStatic : Opcode := 0xb3
@[match_pattern] def getField : Opcode := 0xb4
@[match_pattern] def putField : Opcode := 0xb5
@[match_pattern] def invokeVirtual : Opcode := 0xb6
@[match_pattern] def invokeSpecial : Opcode := 0xb7
@[match_pattern] def invokeStatic : Opcode := 0xb8
@[match_pattern] def invokeInterface : Opcode := 0xb9
@[match_pattern] def invokeDynamic : Opcode := 0xba
@[match_pattern] def newObject : Opcode := 0xbb
@[match_pattern] def newArray : Opcode := 0xbc
@[match_pattern] def newObjectArray : Opcode := 0xbd
@[match_pattern] def arrayLength : Opcode := 0xbe
@[match_pattern] def athrow : Opcode := 0xbf
@[match_pattern] def checkCast : Opcode := 0xc0
@[match_pattern] def instanceOf : Opcode := 0xc1
@[match_pattern] def monitorEnter : Opcode := 0xc2
@[match_pattern] def monitorExit : Opcode := 0xc3
@[match_pattern] def wide : Opcode := 0xc4
@[match_pattern] def newMultiArray : Opcode := 0xc5
@[match_pattern] def ifNull : Opcode := 0xc6
@[match_pattern] def ifNonNull : Opcode := 0xc7
@[match_pattern] def gotoWide : Opcode := 0xc8
@[match_pattern] def jsrWide : Opcode := 0xc9

/-- The mnemonics, by opcode. -/
def mnemonics : Array String := #[
  "nop", "aconst_null", "iconst_m1", "iconst_0", "iconst_1", "iconst_2", "iconst_3", "iconst_4",
  "iconst_5", "lconst_0", "lconst_1", "fconst_0", "fconst_1", "fconst_2", "dconst_0", "dconst_1",
  "bipush", "sipush", "ldc", "ldc_w", "ldc2_w", "iload", "lload", "fload", "dload", "aload",
  "iload_0", "iload_1", "iload_2", "iload_3", "lload_0", "lload_1", "lload_2", "lload_3",
  "fload_0", "fload_1", "fload_2", "fload_3", "dload_0", "dload_1", "dload_2", "dload_3",
  "aload_0", "aload_1", "aload_2", "aload_3", "iaload", "laload", "faload", "daload", "aaload",
  "baload", "caload", "saload", "istore", "lstore", "fstore", "dstore", "astore", "istore_0",
  "istore_1", "istore_2", "istore_3", "lstore_0", "lstore_1", "lstore_2", "lstore_3", "fstore_0",
  "fstore_1", "fstore_2", "fstore_3", "dstore_0", "dstore_1", "dstore_2", "dstore_3", "astore_0",
  "astore_1", "astore_2", "astore_3", "iastore", "lastore", "fastore", "dastore", "aastore",
  "bastore", "castore", "sastore", "pop", "pop2", "dup", "dup_x1", "dup_x2", "dup2", "dup2_x1",
  "dup2_x2", "swap", "iadd", "ladd", "fadd", "dadd", "isub", "lsub", "fsub", "dsub", "imul",
  "lmul", "fmul", "dmul", "idiv", "ldiv", "fdiv", "ddiv", "irem", "lrem", "frem", "drem", "ineg",
  "lneg", "fneg", "dneg", "ishl", "lshl", "ishr", "lshr", "iushr", "lushr", "iand", "land",
  "ior", "lor", "ixor", "lxor", "iinc", "i2l", "i2f", "i2d", "l2i", "l2f", "l2d", "f2i", "f2l",
  "f2d", "d2i", "d2l", "d2f", "i2b", "i2c", "i2s", "lcmp", "fcmpl", "fcmpg", "dcmpl", "dcmpg",
  "ifeq", "ifne", "iflt", "ifge", "ifgt", "ifle", "if_icmpeq", "if_icmpne", "if_icmplt",
  "if_icmpge", "if_icmpgt", "if_icmple", "if_acmpeq", "if_acmpne", "goto", "jsr", "ret",
  "tableswitch", "lookupswitch", "ireturn", "lreturn", "freturn", "dreturn", "areturn", "return",
  "getstatic", "putstatic", "getfield", "putfield", "invokevirtual", "invokespecial",
  "invokestatic", "invokeinterface", "invokedynamic", "new", "newarray", "anewarray",
  "arraylength", "athrow", "checkcast", "instanceof", "monitorenter", "monitorexit", "wide",
  "multianewarray", "ifnull", "ifnonnull", "goto_w", "jsr_w"]

/-- The mnemonic of an opcode. -/
def mnemonic? (op : Opcode) : Option String := mnemonics[op.toNat]?

/-- The mnemonic for display, also where there is none. -/
def name (op : Opcode) : String := op.mnemonic?.getD "<invalid>"

/-- The opcode of a mnemonic. -/
def byName? (name : String) : Option Opcode :=
  (mnemonics.findIdx? (· == name)).map UInt8.ofNat

/-! ### Groups -/

/-- Whether the opcode lies between two others. -/
def isBetween (low high op : Opcode) : Bool := low ≤ op && op ≤ high

/-- Opcodes without operand bytes that are not short forms of others. -/
def isPlain (op : Opcode) : Bool :=
  isBetween nop dconst1 op || isBetween iaload saload op || isBetween iastore lxor op
    || isBetween i2l dcmpg op || isBetween ireturn returnVoid op || isBetween arrayLength athrow op
    || isBetween monitorEnter monitorExit op

/-- Opcodes after which execution never goes on with the next instruction. -/
def isUnconditional (op : Opcode) : Bool :=
  op == goto || op == gotoWide || op == ret || op == tableSwitch || op == lookupSwitch
    || isBetween ireturn returnVoid op || op == athrow

/-- Opcodes that leave the method with or without a value. -/
def isReturn (op : Opcode) : Bool := isBetween ireturn returnVoid op

/-- Loads of a local variable with an operand. -/
def isLoad (op : Opcode) : Bool := isBetween iload aload op

/-- Stores to a local variable with an operand. -/
def isStore (op : Opcode) : Bool := isBetween istore astore op

/-- Loads of one of the first four local variables. -/
def isShortLoad (op : Opcode) : Bool := isBetween iload0 aload3 op

/-- Stores to one of the first four local variables. -/
def isShortStore (op : Opcode) : Bool := isBetween istore0 astore3 op

/-- Jumps on a condition on one or two values. -/
def isCondition (op : Opcode) : Bool :=
  isBetween ifEq ifRefNe op || op == ifNull || op == ifNonNull

/-- The load or store with an operand, and the variable, that a short form numbered from `base`
stands for; `wide` is the first of the forms with an operand. -/
def expandShort (base wide op : Opcode) : Opcode × UInt16 :=
  (wide + (op - base) / 4, ((op - base) % 4).toUInt16)

/-- The jump on the opposite condition. -/
def inverse? (op : Opcode) : Option Opcode :=
  if op == ifNull then some ifNonNull
  else if op == ifNonNull then some ifNull
  else if isBetween ifEq ifRefNe op then
    -- the two conditions of a pair stand side by side, the first of them odd
    some (if op % 2 == 1 then op + 1 else op - 1)
  else none

/-! ### Facts -/

theorem inverse?_inverse? : ∀ n : Fin 256,
    ∀ op ∈ inverse? (UInt8.ofNat n.val), inverse? op = some (UInt8.ofNat n.val) := by
  -- a quantifier over the members of an option may be decided by going through every byte
  have hall : ∀ n : Fin 256, (inverse? (UInt8.ofNat n.val)).all
      (fun op => inverse? op == some (UInt8.ofNat n.val)) = true := by decide +kernel
  intro n op hop
  have hinverse := (Option.all_eq_true _ _).mp (hall n) op hop
  exact eq_of_beq hinverse

end Opcode

end ClassGraft

/-!
## Element types

The operand of the instruction that makes an array of primitive values is a number for the type of
its elements, with a name in listings and a descriptor of the array.
-/

namespace ClassGraft.ElementType

/-- Number, name and array descriptor of each element type. -/
def table : List (UInt8 × String × String) :=
  [(4, "boolean", "[Z"), (5, "char", "[C"), (6, "float", "[F"), (7, "double", "[D"),
    (8, "byte", "[B"), (9, "short", "[S"), (10, "int", "[I"), (11, "long", "[J")]

/-- The name of an element type. -/
def name? (type : UInt8) : Option String :=
  (table.find? (·.1 == type)).map (·.2.1)

/-- The name for display, also where there is none. -/
def name (type : UInt8) : String := (name? type).getD "<invalid>"

/-- The element type of a name. -/
def byName? (name : String) : Option UInt8 :=
  (table.find? (·.2.1 == name)).map (·.1)

/-- The descriptor of an array of the element type. -/
def arrayDescriptor? (type : UInt8) : Option String :=
  (table.find? (·.1 == type)).map (·.2.2)

end ClassGraft.ElementType
