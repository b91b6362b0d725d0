import ClassGraft.Decimal.Binary
import ClassGraft.Decimal.Integer

/-!
# Floating point numbers in decimal

`Shortest.digits` finds the fewest decimal digits that read back as a given binary number, and of
these the ones nearest to it, a tie going up.  `Decimal.float` writes them without an exponent, and
`Decimal.readFloat` reads a decimal text, rounding to the nearest number of the format.
-/

namespace ClassGraft

namespace Shortest

open BinaryFormat (twoTo)
open Decimal (tenTo)

/-- The reals that round to a number, all as multiples of a common unit `1 / den`: the number, the
ends of the interval, and whether the ends round to it too. -/
structure Interval where
  low : Nat
  value : Nat
  high : Nat
  den : Nat
  closed : Bool

/-- The interval of a finite positive magnitude.  Below a mantissa that starts a new exponent the
gap is half as wide. -/
def interval (format : BinaryFormat) (bits : Nat) : Interval :=
  let m := format.mantissa bits
  let scale := twoTo (format.exponent bits)
  let low := if m = format.stride ∧ 1 < format.field bits then 1 else 2
  ⟨(4 * m - low) * scale, 4 * m * scale, (4 * m + 2) * scale, 4 * twoTo format.depth, m % 2 == 0⟩

/-- Whether the decimal `n * 10 ^ k / 10 ^ d` lies in the interval. -/
def Interval.contains (i : Interval) (n k d : Nat) : Bool :=
  let point := n * tenTo k * i.den
  let unit := tenTo d
  if i.closed then i.low * unit ≤ point && point ≤ i.high * unit
  else i.low * unit < point && point < i.high * unit

/-- Tries the decimals with `count` digits more than none, then with more and more of them, for
`fuel` counts.  The number lies below `10 ^ top / 10 ^ bottom`. -/
def search (i : Interval) (top bottom : Nat) : (fuel count : Nat) → Nat × Nat × Nat
  | 0, count => (i.value * tenTo (bottom + count) / (i.den * tenTo top), top, bottom + count)
  | fuel + 1, count =>
    -- the grid of multiples of 10 ^ k / 10 ^ d
    let k := top - count
    let d := bottom + count - top
    let unit := i.den * tenTo k
    let point := i.value * tenTo d
    let down := point / unit
    let isExact := point % unit = 0
    let up := if isExact then down else down + 1
    let fitsDown := i.contains down k d
    let fitsUp := i.contains up k d
    if fitsUp && (!fitsDown || unit ≤ point % unit * 2) then (up, k, d)
    else if fitsDown then (down, k, d)
    else search i top bottom fuel (count + 1)

/-- The least `n` up to `fuel` with `num < den * 10 ^ n`. -/
def ceilLog (num den : Nat) : (fuel n : Nat) → Nat
  | 0, n => n
  | fuel + 1, n => if num < den * tenTo n then n else ceilLog num den fuel (n + 1)

/-- The decimal `(n, k, d)`, standing for `n * 10 ^ k / 10 ^ d`, with the fewest digits that reads
back as the finite positive magnitude, and of these the nearest. -/
def digits (format : BinaryFormat) (bits : Nat) : Nat × Nat × Nat :=
  let i := interval format bits
  if i.den ≤ i.value then
    search i (ceilLog i.value i.den 400 0) 0 20 1
  else
    -- a number below one: count the zeros after the point
    let bottom := ceilLog i.den i.value 400 0 - 1
    search i 0 bottom 20 1

end Shortest

namespace Decimal

/-- The decimal `n * 10 ^ k / 10 ^ d` without an exponent, and without zeros that end its
fraction. -/
def positional (n k d : Nat) : String :=
  let shown := Nat.toDigits 10 (n * tenTo k)
  if d = 0 then String.ofList shown
  else
    let padded := List.replicate (d + 1 - shown.length) '0' ++ shown
    let whole := padded.take (padded.length - d)
    let fraction := ((padded.drop (padded.length - d)).reverse.dropWhile (· == '0')).reverse
    if fraction.isEmpty then String.ofList whole
    else String.ofList (whole ++ '.' :: fraction)

/-- A floating point number in decimal: the shortest text that reads back, without an exponent,
and without a fraction if it is whole. -/
def float (format : BinaryFormat) (bits : Nat) : String :=
  let magnitude := bits % format.signBit
  let sign := if bits < format.signBit then "" else "-"
  if format.infinity < magnitude then "NaN"
  else if magnitude = format.infinity then sign ++ "inf"
  else if magnitude = 0 then sign ++ "0"
  else
    let (n, k, d) := Shortest.digits format magnitude
    sign ++ positional n k d

/-- A number of 32 bits in decimal. -/
def single (bits : UInt32) : String := float .single bits.toNat

/-- A number of 64 bits in decimal. -/
def double (bits : UInt64) : String := float .double bits.toNat

end Decimal

/-- Why a text is no floating point number. -/
inductive FloatFault where
  | empty
  | invalid
  deriving DecidableEq, Repr

/-- The wording of the fault. -/
def FloatFault.message : FloatFault → String
  | .empty => "cannot parse float from empty string"
  | .invalid => "invalid float literal"

namespace Decimal

/-- The digits at the start of the text, and the rest. -/
def spanDigits (text : List Char) : List Char × List Char :=
  text.span Char.isDigit

/-- The number that decimal digits spell. -/
def ofDigits (digits : List Char) : Nat :=
  digits.foldl (fun value c => value * 10 + (c.toNat - '0'.toNat)) 0

/-- The number that the digits of an exponent spell; once it has reached 2^16 the remaining digits
are left out, since no number is that large or small. -/
def ofExponentDigits (digits : List Char) : Nat :=
  digits.foldl
    (fun value c => if value < 0x10000 then value * 10 + (c.toNat - '0'.toNat) else value) 0

/-- The exponent that ends a decimal: none, or a letter and a whole number. -/
def readExponent : List Char → Option Int
  | [] => some 0
  | 'e' :: rest | 'E' :: rest =>
    let (negative, digits) := match rest with
      | '+' :: digits => (false, digits)
      | '-' :: digits => (true, digits)
      | digits => (false, digits)
    if digits.isEmpty || !digits.all Char.isDigit then none
    else
      let value : Int := ofExponentDigits digits
      some (if negative then -value else value)
  | _ => none

/-- The magnitude next to `mantissa * 10 ^ exponent`. -/
def scaled (format : BinaryFormat) (mantissa : Nat) (exponent : Int) : Nat :=
  let size : Int := (Nat.toDigits 10 mantissa).length + exponent
  if mantissa = 0 || size < -400 then 0
  else if 400 < size then format.infinity
  else
    match exponent with
    | .ofNat k => format.round (mantissa * tenTo k) 1
    | .negSucc k => format.round mantissa (tenTo (k + 1))

/-- The magnitude that a text without a sign spells. -/
def readMagnitude (format : BinaryFormat) (text : List Char) : Option Nat :=
  let lower := String.ofList (text.map Char.toLower)
  if lower = "inf" ∨ lower = "infinity" then some format.infinity
  else if lower = "nan" then some format.quietNaN
  else
    let (whole, rest) := spanDigits text
    let (fraction, rest) := match rest with
      | '.' :: rest => spanDigits rest
      | rest => ([], rest)
    if whole.isEmpty && fraction.isEmpty then none
    else
      (readExponent rest).map fun exponent =>
        scaled format (ofDigits (whole ++ fraction)) (exponent - fraction.length)

/-- The bits of the number next to the decimal that the text spells. -/
def readFloat (format : BinaryFormat) (text : List Char) : Except FloatFault Nat :=
  match text with
  | [] => .error .empty
  | '-' :: rest => ((readMagnitude format rest).map (format.signBit + ·)).elim (.error .invalid) .ok
  | '+' :: rest => (readMagnitude format rest).elim (.error .invalid) .ok
  | rest => (readMagnitude format rest).elim (.error .invalid) .ok

end Decimal

end ClassGraft
