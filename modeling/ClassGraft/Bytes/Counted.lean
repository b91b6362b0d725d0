import ClassGraft.Fault

/-!
# Bytes with their length in front

Lists in a class file start with the number of their elements in two bytes, attributes with the
number of their bytes in four.
-/

namespace ClassGraft.Bytes

/-- Bytes with their number in four bytes in front. -/
def block (bytes : Bytes) : Except ClassFault Bytes :=
  let length := bytes.length
  if length < 4294967296 then .ok (ofUInt32 (UInt32.ofNat length) ++ bytes)
  else .error (.unencodable (.tooLarge length 32))

/-- A list with its length in two bytes in front, which is checked before the parts are written. -/
def listOf {α : Type} (write : α → Except ClassFault Bytes) (items : List α) :
    Except ClassFault Bytes := do
  if 65536 ≤ items.length then throw (.unencodable (.tooLarge items.length 16))
  let parts ← items.mapM write
  return ofUInt16 (UInt16.ofNat items.length) ++ parts.flatten

/-- A list of rows of half words with its length in front. -/
def tableOf {α : Type} (row : α → List UInt16) (items : List α) : Except ClassFault Bytes :=
  listOf (fun item => .ok ((row item).flatMap ofUInt16)) items

end ClassGraft.Bytes
