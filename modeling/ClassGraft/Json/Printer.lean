import ClassGraft.Decimal.Integer

/-!
# Writing JSON

`Json.compact` writes a value without any blanks, and `Json.indented` with each element on a line of
its own, two more blanks deep than what it belongs to.  Quotes, backslashes and control characters
are escaped, and all other characters stand for themselves.
-/

/-!
## JSON values

The values that files are written with: numbers are whole, and the entries of an object keep their
order.
-/

namespace ClassGraft

/-- A value that is written as JSON. -/
inductive Json where
  | bool (value : Bool)
  | number (value : Int)
  | string (value : String)
  | array (elements : List Json)
  | object (entries : List (String × Json))
  deriving Repr, Inhabited

end ClassGraft

/-! ## Writing a value -/

namespace ClassGraft

/-- What a style of writing puts between the tokens of a value. -/
structure Json.Style where
  /-- In front of an element at a depth, and of the bracket that closes what is one level above. -/
  lineBreak : (depth : Nat) → String
  colon : String

namespace Json

/-- The style without blanks. -/
def Style.compact : Style := ⟨fun _ => "", ":"⟩

/-- The style with a line for each element. -/
def Style.indented : Style where
  lineBreak depth := String.ofList ('\n' :: List.replicate (2 * depth) ' ')
  colon := ": "

/-- A character inside a string. -/
def escape (c : Char) : List Char :=
  if c = '"' then ['\\', '"']
  else if c = '\\' then ['\\', '\\']
  else if c = '\n' then ['\\', 'n']
  else if c = '\r' then ['\\', 'r']
  else if c = '\t' then ['\\', 't']
  else if c = '\x08' then ['\\', 'b']
  else if c = '\x0c' then ['\\', 'f']
  else if c < ' ' then '\\' :: 'u' :: (Decimal.padLeft '0' 4 (Decimal.hex c.toNat)).toList
  else [c]

/-- A string in quotes. -/
def quote (text : String) : String :=
  String.ofList ('"' :: (text.toList.flatMap escape ++ ['"']))

mutual

/-- What was written before, and a value at a depth. -/
def writeTo (style : Style) (depth : Nat) (out : String) : Json → String
  | bool value => out ++ if value then "true" else "false"
  | number value => out ++ Decimal.integer value
  | string value => out ++ quote value
  | array [] => out ++ "[]"
  | array (element :: rest) =>
    let out := writeTo style (depth + 1) (out ++ "[" ++ style.lineBreak (depth + 1)) element
    writeElementsTo style (depth + 1) out rest ++ style.lineBreak depth ++ "]"
  | object [] => out ++ "\x7b\x7d"
  | object ((key, value) :: rest) =>
    let out := out ++ "\x7b" ++ style.lineBreak (depth + 1) ++ quote key ++ style.colon
    writeEntriesTo style (depth + 1) (writeTo style (depth + 1) out value) rest
      ++ style.lineBreak depth ++ "\x7d"

/-- What was written before, and the elements after the first one. -/
def writeElementsTo (style : Style) (depth : Nat) (out : String) : List Json → String
  | [] => out
  | element :: rest =>
    let out := out ++ "," ++ style.lineBreak depth
    writeElementsTo style depth (writeTo style depth out element) rest

/-- What was written before, and the entries after the first one. -/
def writeEntriesTo (style : Style) (depth : Nat) (out : String) :
    List (String × Json) → String
  | [] => out
  | (key, value) :: rest =>
    let out := out ++ "," ++ style.lineBreak depth ++ quote key ++ style.colon
    writeEntriesTo style depth (writeTo style depth out value) rest

end

/-- The value without blanks. -/
def compact (value : Json) : String := writeTo .compact 0 "" value

/-- The value with a line for each element. -/
def indented (value : Json) : String := writeTo .indented 0 "" value

end Json

end ClassGraft
