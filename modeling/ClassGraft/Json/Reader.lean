import ClassGraft.Decimal.Integer

/-!
# Reading JSON

`Json.outline` reads a text as JSON.  A text may start and end with blanks, which are spaces, tabs
and line ends, and has exactly one value.
-/

/-!
## What a text holds as JSON

The outline of a text is the value that it spells, as far as it is JSON: where the text stops being
JSON the outline is broken, and all that stands before is there.  So a reader that goes through an
outline from its start meets the faults of a text in their order.
-/

namespace ClassGraft.Json

/-- A value as it was read. -/
inductive Outline where
  | null
  | bool (value : Bool)
  /-- A number; of those that are not written as whole numbers, and of a negative zero, the value is
  not kept. -/
  | number (value : Option Int)
  /-- A string, or nothing if its escapes leave half of a surrogate pair. -/
  | string (value : Option String)
  /-- The elements; the text stops being JSON in or after the last one unless `whole`. -/
  | array (elements : List Outline) (whole : Bool)
  /-- The entries, with keys as strings; the text stops being JSON in or after the last one unless
  `whole`. -/
  | object (entries : List (Option String × Outline)) (whole : Bool)
  /-- No value. -/
  | broken
  deriving Inhabited

/-- Whether the text is JSON up to the end of the value. -/
def Outline.isWhole : Outline → Bool
  | array _ whole => whole
  | object _ whole => whole
  | broken => false
  | _ => true

end ClassGraft.Json

/-! ## Going through a text -/

namespace ClassGraft.Json

/-! ### Blanks and numbers -/

def isBlank (c : Char) : Bool := c == ' ' || c == '\n' || c == '\t' || c == '\r'

/-- The text without the blanks at its start. -/
def skipBlank (text : List Char) : List Char := text.dropWhile isBlank

def isDigit (c : Char) : Bool := '0' ≤ c && c ≤ '9'

/-- What follows the digits at the start of a text, at least one. -/
def skipDigits? : List Char → Option (List Char)
  | [] => none
  | c :: rest => if isDigit c then some (rest.dropWhile isDigit) else none

/-- What follows a decimal point with digits, if there is one. -/
def skipFraction? : List Char → Option (List Char)
  | '.' :: rest => skipDigits? rest
  | text => some text

/-- What follows an exponent, if there is one. -/
def skipExponent? : List Char → Option (List Char)
  | c :: rest =>
    if c = 'e' ∨ c = 'E' then
      match rest with
      | '+' :: digits | '-' :: digits => skipDigits? digits
      | digits => skipDigits? digits
    else some (c :: rest)
  | [] => some []

/-- The value of digits, the first one first. -/
def valueOf (digits : List Char) : Nat :=
  digits.foldl (fun value c => value * 10 + (c.toNat - '0'.toNat)) 0

/-- The number at the start of a text.  Its value is known if it is a whole number without fraction
and exponent, and no negative zero. -/
def readNumber? (text : List Char) : Option (Option Int × List Char) :=
  let (negative, text) := match text with
    | '-' :: rest => (true, rest)
    | _ => (false, text)
  let digits := text.takeWhile isDigit
  let rest := text.dropWhile isDigit
  if digits.isEmpty || (digits.length > 1 && digits.head? == some '0') then none
  else do
    let after ← skipExponent? (← skipFraction? rest)
    let value := valueOf digits
    let whole := after.length == rest.length && !(negative && value == 0)
    return (if whole then some (if negative then -value else value) else none, after)

/-! ### Strings -/

/-- A string under way. -/
structure Draft where
  /-- The characters, the last one first. -/
  chars : List Char
  /-- The first half of a surrogate pair, if it stands at the end. -/
  high : Option Nat
  /-- Whether no half of a pair stands alone so far. -/
  sound : Bool

namespace Draft

/-- The empty string. -/
def empty : Draft := ⟨[], none, true⟩

/-- The string with another code unit, which may be half of a surrogate pair. -/
def push (unit : Nat) : Draft → Draft
  | ⟨chars, some high, sound⟩ =>
    if 0xDC00 ≤ unit ∧ unit ≤ 0xDFFF then
      ⟨Char.ofNat (0x10000 + (high - 0xD800) * 1024 + (unit - 0xDC00)) :: chars, none, sound⟩
    else ⟨chars, none, false⟩
  | ⟨chars, none, sound⟩ =>
    if 0xD800 ≤ unit ∧ unit ≤ 0xDBFF then ⟨chars, some unit, sound⟩
    else if 0xDC00 ≤ unit ∧ unit ≤ 0xDFFF then ⟨chars, none, false⟩
    else ⟨Char.ofNat unit :: chars, none, sound⟩

/-- The string, unless half of a surrogate pair stands alone. -/
def text? (draft : Draft) : Option String :=
  if draft.sound && draft.high.isNone then some (String.ofList draft.chars.reverse) else none

end Draft

/-- The character that a letter after a backslash stands for. -/
def escaped? : Char → Option Char
  | '"' => some '"'
  | '\\' => some '\\'
  | '/' => some '/'
  | 'b' => some '\x08'
  | 'f' => some '\x0c'
  | 'n' => some '\n'
  | 'r' => some '\r'
  | 't' => some '\t'
  | _ => none

/-- The value of four hexadecimal digits. -/
def hexValue? (a b c d : Char) : Option Nat :=
  [a, b, c, d].foldlM (fun value digit => (Decimal.digit? 16 digit).map (value * 16 + ·)) 0

/-- The rest of a string after its opening quote, and what follows it. -/
def readString? (draft : Draft) : List Char → Option (Draft × List Char)
  | '"' :: rest => some (draft, rest)
  | '\\' :: 'u' :: a :: b :: c :: d :: rest =>
    match hexValue? a b c d with
    | some unit => readString? (draft.push unit) rest
    | none => none
  | '\\' :: letter :: rest =>
    match escaped? letter with
    | some c => readString? (draft.push c.toNat) rest
    | none => none
  | c :: rest => if c < ' ' || c == '\\' then none else readString? (draft.push c.toNat) rest
  | [] => none

/-! ### Values -/

mutual

/-- The value at the start of a text and what follows it, as long as the text is JSON. -/
def readValue : (fuel : Nat) → List Char → Outline × Option (List Char)
  | 0, _ => (.broken, none)
  | fuel + 1, text =>
    match skipBlank text with
    | '"' :: rest =>
      match readString? .empty rest with
      | some (draft, rest) => (.string draft.text?, some rest)
      | none => (.broken, none)
    | '[' :: rest => readElements fuel [] rest
    | '\x7b' :: rest => readEntries fuel [] rest
    | 'n' :: 'u' :: 'l' :: 'l' :: rest => (.null, some rest)
    | 't' :: 'r' :: 'u' :: 'e' :: rest => (.bool true, some rest)
    | 'f' :: 'a' :: 'l' :: 's' :: 'e' :: rest => (.bool false, some rest)
    | text =>
      match readNumber? text with
      | some (value, rest) => (.number value, some rest)
      | none => (.broken, none)

/-- An array after its bracket or a comma; `found` has the elements before, the last one first. -/
def readElements : (fuel : Nat) → (found : List Outline) → List Char →
    Outline × Option (List Char)
  | 0, found, _ => (.array found.reverse false, none)
  | fuel + 1, found, text =>
    match found, skipBlank text with
    | [], ']' :: rest => (.array [] true, some rest)
    | _, text =>
      match readValue fuel text with
      | (element, none) => (.array (element :: found).reverse false, none)
      | (element, some rest) =>
        match skipBlank rest with
        | ',' :: rest => readElements fuel (element :: found) rest
        | ']' :: rest => (.array (element :: found).reverse true, some rest)
        | _ => (.array (element :: found).reverse false, none)

/-- An object after its brace or a comma; `found` has the entries before, the last one first. -/
def readEntries : (fuel : Nat) → (found : List (Option String × Outline)) → List Char →
    Outline × Option (List Char)
  | 0, found, _ => (.object found.reverse false, none)
  | fuel + 1, found, text =>
    match found, skipBlank text with
    | [], '\x7d' :: rest => (.object [] true, some rest)
    | _, '"' :: rest =>
      match readString? .empty rest with
      | none => (.object found.reverse false, none)
      | some (key, rest) =>
        match skipBlank rest with
        | ':' :: rest =>
          match readValue fuel rest with
          | (value, none) => (.object ((key.text?, value) :: found).reverse false, none)
          | (value, some rest) =>
            let found := (key.text?, value) :: found
            match skipBlank rest with
            | ',' :: rest => readEntries fuel found rest
            | '\x7d' :: rest => (.object found.reverse true, some rest)
            | _ => (.object found.reverse false, none)
        | _ => (.object ((key.text?, .broken) :: found).reverse false, none)
    | _, _ => (.object found.reverse false, none)

end

/-- The value that a text spells, and whether nothing but blanks follows it. -/
def outline (text : String) : Outline × Bool :=
  let chars := text.toList
  -- each bracket takes two steps, and each other value one
  let (value, rest) := readValue (2 * chars.length + 2) chars
  (value, rest.any fun rest => (skipBlank rest).isEmpty)

end ClassGraft.Json
