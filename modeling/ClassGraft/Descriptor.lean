import ClassGraft.Bytes.BigEndian

/-!
# Descriptors

A field descriptor spells a type: a letter for a primitive one, `L` a name and `;` for a class, or
up to 255 brackets before either for an array.  A method descriptor spells the types of the
arguments in parentheses, and the type of the result or `V`.  `Descriptor.field?` and
`Descriptor.method?` read them.
-/

namespace ClassGraft

/-- A type as locals and the operand stack see it: the small integral types are all `int`. -/
inductive ValueType where
  | int
  | float
  | long
  | double
  /-- The name of a class, or the descriptor of an array type. -/
  | reference (name : Bytes)
  deriving DecidableEq, Repr

/-- The local slots or stack words that a value of the type takes. -/
def ValueType.size : ValueType → Nat
  | .long | .double => 2
  | _ => 1

/-- A method descriptor; the result is absent for `V`. -/
structure MethodType where
  arguments : List ValueType
  result : Option ValueType
  deriving DecidableEq, Repr

namespace MethodType

/-- The slots that the arguments take, without a receiver, in arithmetic of 16 bits. -/
def argumentsSize (type : MethodType) : UInt16 :=
  type.arguments.foldl (fun sum argument => sum + UInt16.ofNat argument.size) 0

/-- The words that the result takes. -/
def resultSize (type : MethodType) : Nat :=
  match type.result with
  | some result => result.size
  | none => 0

end MethodType

namespace Descriptor

/-- The bracket that starts an array type, `[`. -/
def bracket : UInt8 := 0x5B

/-- The letter that starts a class type, `L`. -/
def classMark : UInt8 := 0x4C

/-- What ends the name in a class type, `;`. -/
def nameEnd : UInt8 := 0x3B

/-- The primitive type of a letter. -/
def primitive? (letter : UInt8) : Option ValueType :=
  match Char.ofNat letter.toNat with
  | 'B' | 'C' | 'I' | 'S' | 'Z' => some .int
  | 'F' => some .float
  | 'J' => some .long
  | 'D' => some .double
  | _ => none

/-- The primitive or class type at the start of the bytes, and its length. -/
def readElement (bytes : Bytes) : Option (ValueType × Nat) :=
  match bytes with
  | [] => none
  | letter :: rest =>
    if letter = classMark then
      let name := rest.takeWhile (· != nameEnd)
      if name.isEmpty || name.length == rest.length then none
      else some (.reference name, name.length + 2)
    else (primitive? letter).map (·, 1)

/-- The type at the start of the bytes, and its length. -/
def readType (bytes : Bytes) : Option (ValueType × Nat) :=
  let dimensions := (bytes.takeWhile (· == bracket)).length
  if dimensions = 0 then readElement bytes
  else if 255 < dimensions then none
  else
    (readElement (bytes.drop dimensions)).map fun (_, length) =>
      (.reference (bytes.take (dimensions + length)), dimensions + length)

/-- The type that the bytes spell. -/
def field? (bytes : Bytes) : Option ValueType :=
  match readType bytes with
  | some (type, length) => if length = bytes.length then some type else none
  | none => none

/-- The types up to the closing parenthesis and what follows it, with those read so far in
`found`, the last one first. -/
def readArguments : (fuel : Nat) → (found : List ValueType) → Bytes →
    Option (List ValueType × Bytes)
  | 0, _, _ => none
  | fuel + 1, found, bytes =>
    match bytes with
    | 0x29 :: rest => some (found.reverse, rest)
    | _ =>
      match readType bytes with
      | some (type, length) => readArguments fuel (type :: found) (bytes.drop length)
      | none => none

/-- The method type that the bytes spell. -/
def method? (bytes : Bytes) : Option MethodType :=
  match bytes with
  | 0x28 :: rest =>
    match readArguments (rest.length + 1) [] rest with
    | some (arguments, [0x56]) => some ⟨arguments, none⟩
    | some (arguments, result) => (field? result).map fun result => ⟨arguments, some result⟩
    | none => none
  | _ => none

/-- The descriptor of the elements of an array type. -/
def element? (array : Bytes) : Option Bytes :=
  match array with
  | first :: rest => if first = bracket && !rest.isEmpty then some rest else none
  | [] => none

/-- The descriptor of a class or an array type given by its name. -/
def ofClass (name : Bytes) : Bytes :=
  if name.head? = some bracket then name else classMark :: name ++ [nameEnd]

/-- The name of the class or array type that a descriptor of an element spells; primitive types
have none. -/
def className? (element : Bytes) : Option Bytes :=
  match element with
  | [] => none
  | first :: rest =>
    if first = bracket then some element
    else if first = classMark && rest.getLast? = some nameEnd then some rest.dropLast
    else none

end Descriptor

end ClassGraft
