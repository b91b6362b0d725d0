/-!
# Reading whole numbers

`readInteger` reads a whole number that has to lie in a range.  Digits are taken from the left, and
the first one that is no digit or leads out of the range decides the fault.
-/

namespace ClassGraft

/-- Why a text is no whole number of the range. -/
inductive IntegerFault where
  | empty
  | badDigit
  | tooLarge
  | tooSmall
  deriving DecidableEq, Repr

/-- The wording of the fault. -/
def IntegerFault.message : IntegerFault → String
  | .empty => "cannot parse integer from empty string"
  | .badDigit => "invalid digit found in string"
  | .tooLarge => "number too large to fit in target type"
  | .tooSmall => "number too small to fit in target type"

namespace Decimal

/-- A power of ten. -/
def tenTo (n : Nat) : Nat := Nat.pow 10 n

/-- The value of a digit in a base of at most 16. -/
def digit? (base : Nat) (c : Char) : Option Nat :=
  let value :=
    if '0' ≤ c ∧ c ≤ '9' then c.toNat - '0'.toNat
    else if 'a' ≤ c ∧ c ≤ 'f' then c.toNat - 'a'.toNat + 10
    else if 'A' ≤ c ∧ c ≤ 'F' then c.toNat - 'A'.toNat + 10
    else base
  if value < base then some value else none

/-- Goes on reading digits after `value`, away from zero in the direction of `negative`. -/
def readDigits (base : Nat) (lo hi : Int) (negative : Bool) :
    (value : Int) → List Char → Except IntegerFault Int
  | value, [] => .ok value
  | value, c :: rest =>
    match digit? base c with
    | none => .error .badDigit
    | some d =>
      let next := if negative then value * base - d else value * base + d
      if hi < next then .error .tooLarge
      else if next < lo then .error .tooSmall
      else readDigits base lo hi negative next rest

/-- The whole number from `lo` to `hi` that the text spells in the base.  A plus sign may stand in
front, a minus sign only if the range has negative numbers. -/
def readInteger (base : Nat) (lo hi : Int) (text : List Char) : Except IntegerFault Int :=
  match text with
  | [] => .error .empty
  | '+' :: digits =>
    if digits.isEmpty then .error .badDigit else readDigits base lo hi false 0 digits
  | '-' :: digits =>
    if digits.isEmpty || 0 ≤ lo then .error .badDigit else readDigits base lo hi true 0 digits
  | digits => readDigits base lo hi false 0 digits

/-! ### The ranges of the machine types -/

def readUInt8 (text : List Char) : Except IntegerFault UInt8 :=
  (readInteger 10 0 255 text).map fun n => UInt8.ofNat n.toNat

def readUInt16 (text : List Char) : Except IntegerFault UInt16 :=
  (readInteger 10 0 65535 text).map fun n => UInt16.ofNat n.toNat

def readInt8 (text : List Char) : Except IntegerFault Int8 :=
  (readInteger 10 (-128) 127 text).map Int8.ofInt

def readInt16 (text : List Char) : Except IntegerFault Int16 :=
  (readInteger 10 (-32768) 32767 text).map Int16.ofInt

def readInt32 (text : List Char) : Except IntegerFault Int32 :=
  (readInteger 10 (-2147483648) 2147483647 text).map Int32.ofInt

def readInt64 (text : List Char) : Except IntegerFault Int64 :=
  (readInteger 10 (-9223372036854775808) 9223372036854775807 text).map Int64.ofInt

/-! ### Writing -/

/-- The digits of the number in lower case. -/
def hex (n : Nat) : String :=
  String.ofList (Nat.toDigits 16 n)

/-- The number in decimal. -/
def natural (n : Nat) : String :=
  String.ofList (Nat.toDigits 10 n)

/-- The number in decimal, with a minus sign in front if it is negative. -/
def integer (n : Int) : String :=
  match n with
  | .ofNat n => natural n
  | .negSucc n => String.ofList ('-' :: Nat.toDigits 10 (n + 1))

/-- The text with blanks or zeros in front up to `width` characters. -/
def padLeft (fill : Char) (width : Nat) (text : String) : String :=
  String.ofList (List.replicate (width - text.length) fill) ++ text

end Decimal

end ClassGraft
