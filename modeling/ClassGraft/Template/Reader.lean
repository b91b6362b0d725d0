import Std.Data.HashMap
import ClassGraft.Code.Opcode
import ClassGraft.Template.Basic
import ClassGraft.Template.Fault
import ClassGraft.Text.Characters

/-!
# Reading code templates

`Template.read` reads a text with one label or instruction per line.  Empty lines and lines that
start with `//` are skipped, and no label may be defined twice.
-/

namespace ClassGraft

/-- Whether the text can name a label. -/
def isLabelName (text : List Char) : Bool :=
  !text.isEmpty && text.all fun c => Text.isAlphanumeric c || c == '_' || c == '$'

/-- The text without the given letter at its end, if it ends with that. -/
def withoutLast? (letter : Char) (text : List Char) : Option (List Char) :=
  if text.getLast? = some letter then some text.dropLast else none

/-- The member that the text names. -/
def MemberName.read (text : List Char) : Except LineFault MemberName :=
  let fault := LineFault.badMember (String.ofList text)
  let path := text.takeWhile (· != ':')
  let descriptor := (text.dropWhile (· != ':')).drop 1
  let name := (path.reverse.takeWhile (· != '.')).reverse
  -- what is left of the path is the owner and a dot, or the path had none
  let owner := (path.take (path.length - name.length)).dropLast
  if owner.isEmpty || name.isEmpty || descriptor.isEmpty then .error fault
  else .ok ⟨String.ofList owner, String.ofList name, String.ofList descriptor⟩

/-- The constant that the text spells. -/
def Constant.read (text : List Char) : Except LineFault Constant :=
  let whole := String.ofList text
  match text with
  | '"' :: quoted => ((Quoted.decode quoted).map Constant.string).mapError .badString
  | 'c' :: 'l' :: 'a' :: 's' :: 's' :: ' ' :: name =>
    .ok (.classRef (String.ofList (Text.trim name)))
  | _ =>
    if let some digits := withoutLast? 'L' text then
      ((Decimal.readInt64 digits).map Constant.long).mapError (.badInteger whole)
    else if let some digits := withoutLast? 'f' text then
      ((Decimal.readFloat .single digits).map fun bits =>
        Constant.float (UInt32.ofNat bits)).mapError (.badFloat whole)
    else if let some digits := withoutLast? 'd' text then
      ((Decimal.readFloat .double digits).map fun bits =>
        Constant.double (UInt64.ofNat bits)).mapError (.badFloat whole)
    else ((Decimal.readInt32 text).map Constant.int).mapError (.badInteger whole)

namespace Line

/-- An operand that is a number. -/
def readNumber {α : Type} (read : List Char → Except IntegerFault α) (text : List Char) :
    Except LineFault α :=
  (read text).mapError (.badNumber (String.ofList text))

/-- The instruction without operands. -/
def noOperand (mnemonic : String) (operands : List (List Char)) (line : Line) :
    Except LineFault Line :=
  if operands.isEmpty then .ok line else .error (.operandCount mnemonic 0 operands.length)

/-- The instruction with one operand. -/
def oneOperand (mnemonic : String) (operands : List (List Char))
    (read : List Char → Except LineFault Line) : Except LineFault Line :=
  match operands with
  | [operand] => read operand
  | _ => .error (.operandCount mnemonic 1 operands.length)

/-- The instruction with two operands. -/
def twoOperands (mnemonic : String) (operands : List (List Char))
    (read : List Char → List Char → Except LineFault Line) : Except LineFault Line :=
  match operands with
  | [first, second] => read first second
  | _ => .error (.operandCount mnemonic 2 operands.length)

/-- The call with the given operands. -/
def readInvoke (op : Opcode) (mnemonic : String) (rest : List Char)
    (operands : List (List Char)) : Except LineFault Line :=
  match operands with
  | [member] =>
    (MemberName.read member).map fun member => .invoke op member (op == Opcode.invokeInterface)
  | [mark, member] =>
    if String.ofList mark = "interface" then
      (MemberName.read member).map fun member => .invoke op member true
    else .error (.noMethod mnemonic (String.ofList rest))
  | _ => .error (.noMethod mnemonic (String.ofList rest))

/-- The instruction with an opcode and what follows its mnemonic. -/
def readOperands (op : Opcode) (mnemonic : String) (rest : List Char) : Except LineFault Line :=
  let operands := Text.words rest
  let none := noOperand mnemonic operands
  let one := oneOperand mnemonic operands
  let two := twoOperands mnemonic operands
  if op.isPlain then none (.plain op)
  else if op == Opcode.bipush then
    one fun text => (readNumber Decimal.readInt8 text).map .bytePush
  else if op == Opcode.sipush then
    one fun text => (readNumber Decimal.readInt16 text).map .shortPush
  else if Opcode.isBetween Opcode.ldc Opcode.ldcDouble op then
    if rest.isEmpty then .error (.noConstant mnemonic) else (Constant.read rest).map .constant
  else if op.isLoad || op.isStore then
    one fun text => (readNumber Decimal.readUInt16 text).map (.access op)
  else if op.isShortLoad then
    let (op, slot) := Opcode.expandShort Opcode.iload0 Opcode.iload op
    none (.access op slot)
  else if op.isShortStore then
    let (op, slot) := Opcode.expandShort Opcode.istore0 Opcode.istore op
    none (.access op slot)
  else if op == Opcode.iinc then
    two fun slot delta => do
      let slot ← readNumber Decimal.readUInt16 slot
      return .increment slot (← readNumber Decimal.readInt16 delta)
  else if op.isCondition || op == Opcode.goto || op == Opcode.gotoWide then
    one fun text =>
      if isLabelName text then
        .ok (.jump (if op == Opcode.gotoWide then Opcode.goto else op) (String.ofList text))
      else .error (.badLabel (String.ofList text))
  else if Opcode.isBetween Opcode.getStatic Opcode.putField op then
    one fun text => (MemberName.read text).map (.field op)
  else if Opcode.isBetween Opcode.invokeVirtual Opcode.invokeInterface op then
    readInvoke op mnemonic rest operands
  else if [Opcode.newObject, Opcode.newObjectArray, Opcode.checkCast, Opcode.instanceOf].contains op
  then one fun text => .ok (.classOp op (String.ofList text))
  else if op == Opcode.newArray then
    one fun text =>
      match ElementType.byName? (String.ofList text) with
      | some element => .ok (.newArray element)
      | .none => .error (.unknownElement (String.ofList text))
  else if op == Opcode.newMultiArray then
    two fun name dimensions => do
      return .newMultiArray (String.ofList name) (← readNumber Decimal.readUInt8 dimensions)
  else .error (.unusable mnemonic)

/-- The line that a text without blanks at its ends spells. -/
def read (text : List Char) : Except LineFault Line :=
  match (withoutLast? ':' text).filter isLabelName with
  | some name => .ok (.label (String.ofList name))
  | none =>
    let (mnemonic, rest) := Text.splitAtBlank text
    let mnemonic := String.ofList mnemonic
    match Opcode.byName? mnemonic with
    | some op => readOperands op mnemonic (Text.trim (rest.getD []))
    | none => .error (.unknownInstruction mnemonic)

end Line

/-- The lines of a text, with the letters of the current one in `line`, the last one first. -/
def splitLines : (line : List Char) → List Char → List (List Char)
  | line, [] => [line.reverse]
  | line, c :: rest =>
    if c = '\n' then line.reverse :: splitLines [] rest else splitLines (c :: line) rest

namespace Template

/-- Reads the lines from the given number on.  `labels` has the lines where labels are defined, and
`found` what was read before, the last line first. -/
def readFrom : (number : Nat) → (labels : Std.HashMap String Nat) → (found : Template) →
    List (List Char) → Except TemplateFault Template
  | _, _, found, [] => .ok found.reverse
  | number, labels, found, text :: rest =>
    let text := Text.trim text
    if text.isEmpty || text.take 2 == ['/', '/'] then readFrom (number + 1) labels found rest
    else
      match Line.read text with
      | .error fault => .error (.atLine number fault)
      | .ok (.label name) =>
        match labels[name]? with
        | some first => .error (.repeatedLabel number name first)
        | none => readFrom (number + 1) (labels.insert name number) (.label name :: found) rest
      | .ok line => readFrom (number + 1) labels (line :: found) rest

/-- The template that a text spells. -/
def read (text : String) : Except TemplateFault Template :=
  readFrom 1 ∅ [] (splitLines [] text.toList)

/-- The template that lines spell. -/
def ofLines (lines : List String) : Except TemplateFault Template :=
  read ("\n".intercalate lines)

end Template

end ClassGraft
