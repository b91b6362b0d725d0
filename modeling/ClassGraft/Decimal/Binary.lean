/-!
# Binary floating point numbers

A format of floating point numbers has a precision and a width of the exponent.  Its numbers are
kept as their bits, and a magnitude `bits` below infinity stands for `mantissa * 2 ^ exponent`
(`BinaryFormat.mantissa`, `BinaryFormat.exponent`).  `BinaryFormat.round` finds the number next to a
quotient of natural numbers, a tie going to the even neighbour.
-/

namespace ClassGraft

/-- A binary format: the bits of a mantissa, the leading one included, and those of an exponent. -/
structure BinaryFormat where
  precision : Nat
  exponentBits : Nat
  deriving DecidableEq, Repr

namespace BinaryFormat

/-- Numbers of 32 bits. -/
def single : BinaryFormat := ⟨24, 8⟩

/-- Numbers of 64 bits. -/
def double : BinaryFormat := ⟨53, 11⟩

/-- A power of two. -/
def twoTo (n : Nat) : Nat := Nat.pow 2 n

variable (format : BinaryFormat)

/-- The number of mantissas that share an exponent. -/
def stride : Nat := twoTo (format.precision - 1)

/-- The bits of infinity. -/
def infinity : Nat := (twoTo format.exponentBits - 1) * format.stride

/-- The bits of the value that is no number, as arithmetic makes it. -/
def quietNaN : Nat := format.infinity + format.stride / 2

/-- The bit that makes a number negative. -/
def signBit : Nat := twoTo format.exponentBits * format.stride

/-- Minus the exponent of the least positive number. -/
def depth : Nat := twoTo (format.exponentBits - 1) - 3 + format.precision

/-- The exponent field of the bits of a magnitude. -/
def field (bits : Nat) : Nat := bits / format.stride

/-- The mantissa of a finite magnitude as a whole number. -/
def mantissa (bits : Nat) : Nat :=
  if format.field bits = 0 then bits else bits % format.stride + format.stride

/-- The exponent of two that scales the mantissa of a finite magnitude, counted from the one of
the least positive number. -/
def exponent (bits : Nat) : Nat := format.field bits - 1

/-- The magnitude next to `num / den`, a tie going to the even neighbour; what lies past the
largest finite number is infinity. -/
def round (num den : Nat) : Nat :=
  -- the quotient in units of the least positive number
  let num := num * twoTo format.depth
  let size := (num / den).log2 + 1
  let scale := size - format.precision
  let unit := den * twoTo scale
  let quotient := num / unit
  let twice := num % unit * 2
  let up := unit < twice || (twice == unit && quotient % 2 == 1)
  let bits := scale * format.stride + quotient + if up then 1 else 0
  min bits format.infinity

end BinaryFormat

end ClassGraft
