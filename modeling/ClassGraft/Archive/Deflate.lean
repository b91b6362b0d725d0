import ClassGraft.Archive.Basic

/-!
# Inflating

Compressed contents are a row of blocks.  A block holds bytes as they are, or symbols of a prefix
code: a symbol stands for a byte, for the end of the block, or for a number of bytes that are copied
from a distance back.  The code is fixed, or it stands in front of the block.  Bits are taken from
each byte from the lowest one on.  What follows the last block is left alone.
-/

/-!
## Prefix codes

A prefix code gives some symbols a word of bits each, so that no word starts with another one.
Where only the lengths of the words are given, words of one length follow each other in the order of
their symbols, and come before all longer words.
-/

namespace ClassGraft

/-- A prefix code as a tree: what the bits read so far lead to. -/
inductive PrefixCode where
  /-- No word starts this way. -/
  | unused
  /-- The word of a symbol. -/
  | symbol (value : Nat)
  /-- The start of longer words, by the next bit. -/
  | branch (zero one : PrefixCode)
  deriving DecidableEq, Repr

namespace PrefixCode

/-- Longest length of a word. -/
def maxLength : Nat := 15

/-- How many rows of `maxLength` bits start with one of the words, given the lengths of those; a
symbol of length 0 has no word. -/
def covered (lengths : List Nat) : Nat :=
  lengths.foldl (fun sum length => if length = 0 then sum else sum + (1 <<< (maxLength - length))) 0

/-- Whether words of the given lengths make up a code that every row of bits starts a word of. -/
def isComplete (lengths : List Nat) : Bool := covered lengths == 1 <<< maxLength

/-- Whether there is at most one word. -/
def hasOneWord (lengths : List Nat) : Bool := (lengths.filter (· ≠ 0)).length ≤ 1

/-- Puts neighbours together, from the left; one without a neighbour gets an unused one. -/
def pairs : List PrefixCode → List PrefixCode
  | [] => []
  | [zero] => [branch zero unused]
  | zero :: one :: rest => branch zero one :: pairs rest

/-- What the used rows of `length` bits lead to, from the left; `count` more lengths may follow. -/
def level (lengths : List Nat) : (count length : Nat) → List PrefixCode
  | 0, _ => []
  | count + 1, length =>
    ((lengths.zipIdx.filter (·.1 == length)).map fun (_, value) => symbol value)
      ++ pairs (level lengths count (length + 1))

/-- The code whose words have the given lengths. -/
def ofLengths (lengths : List Nat) : PrefixCode :=
  match pairs (level lengths maxLength 1) with
  | code :: _ => code
  | [] => branch unused unused

end PrefixCode

end ClassGraft

/-! ## Blocks -/

namespace ClassGraft.Deflate

/-! ### Bits -/

/-- A step that reads bits of some bytes, at a position that it moves on. -/
abbrev Reading (α : Type) := ReaderT (Array UInt8) (StateT Nat (Except ContentsFault)) α

/-- The next bit. -/
def bit : Reading Nat := do
  let position ← get
  match (← read)[position / 8]? with
  | some byte =>
    set (position + 1)
    return (byte.toNat >>> (position % 8)) % 2
  | none => throw .incomplete

/-- The number that the next bits spell, the lowest one first. -/
def bits : (count : Nat) → Reading Nat
  | 0 => return 0
  | count + 1 => do
    let low ← bit
    return low + 2 * (← bits count)

/-- The symbol of the next word of a code. -/
def symbol : PrefixCode → Reading Nat
  | .unused => throw .corrupt
  | .symbol value => return value
  | .branch zero one => do if (← bit) = 0 then symbol zero else symbol one

/-! ### Codes -/

/-- The code of bytes and lengths of a block that has none of its own. -/
def fixedCode : PrefixCode :=
  .ofLengths (List.replicate 144 8 ++ List.replicate 112 9 ++ List.replicate 24 7
    ++ List.replicate 8 8)

/-- The code of distances of a block that has none of its own. -/
def fixedDistances : PrefixCode := .ofLengths (List.replicate 32 5)

/-- The order in which the lengths for the code of lengths stand. -/
def lengthOrder : List Nat := [16, 17, 18, 0, 8, 7, 9, 6, 10, 5, 11, 4, 12, 3, 13, 2, 14, 1, 15]

/-- The lengths of words, as many as asked for; they are written with a code of their own.  Those
read so far are in `found`, the last one first. -/
def codeLengths (code : PrefixCode) (count : Nat) :
    (fuel : Nat) → (found : List Nat) → Reading (List Nat)
  | 0, _ => throw .corrupt
  | fuel + 1, found =>
    if count ≤ found.length then
      if found.length = count then return found.reverse else throw .corrupt
    else do
      let symbol ← symbol code
      if symbol < 16 then codeLengths code count fuel (symbol :: found)
      else if symbol = 16 then
        match found with
        | [] => throw .corrupt
        | last :: _ => codeLengths code count fuel (List.replicate (3 + (← bits 2)) last ++ found)
      else
        let more ← if symbol = 17 then (3 + ·) <$> bits 3 else (11 + ·) <$> bits 7
        codeLengths code count fuel (List.replicate more 0 ++ found)

/-- The code whose words have the given lengths.  All rows of bits have to be in use, unless there
is at most one word. -/
def codeOf (lengths : List Nat) : Reading PrefixCode :=
  if PrefixCode.isComplete lengths || PrefixCode.hasOneWord lengths then
    return PrefixCode.ofLengths lengths
  else throw .corrupt

/-- The codes in front of a block. -/
def codes : Reading (PrefixCode × PrefixCode) := do
  let symbolCount := 257 + (← bits 5)
  let distanceCount := 1 + (← bits 5)
  let lengthCount := 4 + (← bits 4)
  if 286 < symbolCount || 30 < distanceCount then throw .corrupt
  let given ← (lengthOrder.take lengthCount).mapM fun symbol => return (symbol, ← bits 3)
  let lengths := (List.range 19).map fun symbol => (given.lookup symbol).getD 0
  unless PrefixCode.isComplete lengths do throw .corrupt
  let count := symbolCount + distanceCount
  let found ← codeLengths (.ofLengths lengths) count (count + 1) []
  return (← codeOf (found.take symbolCount), ← codeOf (found.drop symbolCount))

/-! ### Copies -/

/-- The least value of each row, where row `i` takes `extra i` more bits. -/
def leastValues (start : Nat) : (extra : List Nat) → List (Nat × Nat)
  | [] => []
  | extra :: rest => (start, extra) :: leastValues (start + (1 <<< extra)) rest

/-- The lengths of copies: the least one and the number of extra bits of each symbol. -/
def lengths : List (Nat × Nat) :=
  leastValues 3 [0, 0, 0, 0, 0, 0, 0, 0, 1, 1, 1, 1, 2, 2, 2, 2, 3, 3, 3, 3, 4, 4, 4, 4, 5, 5, 5, 5]
    ++ [(258, 0)]

/-- The distances of copies. -/
def distances : List (Nat × Nat) :=
  leastValues 1 [0, 0, 0, 0, 1, 1, 2, 2, 3, 3, 4, 4, 5, 5, 6, 6, 7, 7, 8, 8, 9, 9, 10, 10, 11, 11,
    12, 12, 13, 13]

/-- The value of a symbol with its extra bits. -/
def extended (table : List (Nat × Nat)) (symbol : Nat) : Reading Nat := do
  match table[symbol]? with
  | some (least, extra) => return least + (← bits extra)
  | none => throw .corrupt

/-- Copies bytes from a distance back, which may reach into the copy itself.  Zeros stand before
the first byte. -/
def copy (distance : Nat) : (length : Nat) → Array UInt8 → Array UInt8
  | 0, out => out
  | length + 1, out =>
    let byte := if distance ≤ out.size then out.getD (out.size - distance) 0 else 0
    copy distance length (out.push byte)

/-! ### Blocks -/

/-- The bytes after what was written and the symbols up to the end of the block. -/
def inflateSymbols (code distanceCode : PrefixCode) :
    (fuel : Nat) → Array UInt8 → Reading (Array UInt8)
  | 0, _ => throw .corrupt
  | fuel + 1, out => do
    let found ← symbol code
    if found < 256 then inflateSymbols code distanceCode fuel (out.push (UInt8.ofNat found))
    else if found = 256 then return out
    else
      let length ← extended lengths (found - 257)
      let distance ← extended distances (← symbol distanceCode)
      inflateSymbols code distanceCode fuel (copy distance length out)

/-- A number of bytes as they are. -/
def plainBytes : (count : Nat) → Array UInt8 → Reading (Array UInt8)
  | 0, out => return out
  | count + 1, out => do plainBytes count (out.push (UInt8.ofNat (← bits 8)))

/-- A block of bytes as they are, which starts with a new byte.  Their number is followed by what
is missing from it to the largest one. -/
def plainBlock (out : Array UInt8) : Reading (Array UInt8) := do
  modify fun position => (position + 7) / 8 * 8
  let count ← bits 16
  let missing ← bits 16
  if count + missing ≠ 0xFFFF then throw .corrupt
  plainBytes count out

/-- The bytes of blocks after what was written, up to the last block. -/
def inflateBlocks (symbols : Nat) : (fuel : Nat) → Array UInt8 → Reading (Array UInt8)
  | 0, _ => throw .corrupt
  | fuel + 1, out => do
    let last ← bit
    let kind ← bits 2
    let out ←
      if kind = 0 then plainBlock out
      else if kind = 1 then inflateSymbols fixedCode fixedDistances symbols out
      else if kind = 2 then do
        let (code, distanceCode) ← codes
        inflateSymbols code distanceCode symbols out
      else throw .corrupt
    if last = 1 then return out else inflateBlocks symbols fuel out

/-- The bytes that the compressed bytes stand for. -/
def inflate (compressed : Bytes) : Except ContentsFault Bytes := do
  let input := compressed.toArray
  -- each symbol and each block takes a bit at least
  let fuel := 8 * input.size + 1
  let (out, _) ← ((inflateBlocks fuel fuel #[]).run input).run 0
  return out.toList

end ClassGraft.Deflate
