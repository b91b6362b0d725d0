import ClassGraft.Text.Characters
import ClassGraft.Decimal.Integer

/-!
# Quoted text

A quoted text stands between double quotes.  Quotes, backslashes, tabs, line ends and the null
character are written with a backslash, other characters that do not show by their number in
braces, and all else as itself.  `Quoted.encode` writes this form and `Quoted.decode` reads it.
-/

namespace ClassGraft

/-- Why a text is not the rest of a quoted text. -/
inductive QuoteFault where
  /-- No closing quote. -/
  | unterminated (text : List Char)
  /-- A numbered escape without an opening brace. -/
  | missingBrace
  /-- Digits in braces that number no character. -/
  | badNumber (digits : List Char)
  /-- A character that is no escape, or the end of the text after a backslash. -/
  | unknownEscape (c : Option Char)
  /-- Something other than blanks after the closing quote. -/
  | trailing (text : List Char)
  deriving DecidableEq, Repr

namespace Quoted

/-! ### Writing -/

/-- One character inside quotes of the kind `quote`. -/
def encodeChar (quote c : Char) : List Char :=
  if c = '\x00' then ['\\', '0']
  else if c = '\t' then ['\\', 't']
  else if c = '\r' then ['\\', 'r']
  else if c = '\n' then ['\\', 'n']
  else if c = '\\' then ['\\', '\\']
  else if c = quote then ['\\', quote]
  else if Text.isVisible c then [c]
  else '\\' :: 'u' :: '\x7b' :: (Nat.toDigits 16 c.toNat ++ ['\x7d'])

/-- The text in double quotes. -/
def encode (text : String) : String :=
  String.ofList ('"' :: (text.toList.flatMap (encodeChar '"') ++ ['"']))

/-- The character in single quotes. -/
def encodeSingle (c : Char) : String :=
  String.ofList ('\'' :: (encodeChar '\'' c ++ ['\'']))

/-! ### Reading -/

/-- Where in an escape the reader stands. -/
inductive Mode where
  | plain
  | escape
  | brace
  /-- Inside braces, after the digits given, the last one first. -/
  | number (digits : List Char)
  deriving DecidableEq, Repr

/-- The character that a single letter after a backslash stands for. -/
def escaped? : Char → Option Char
  | 'n' => some '\n'
  | 'r' => some '\r'
  | 't' => some '\t'
  | '0' => some '\x00'
  | '\\' => some '\\'
  | '"' => some '"'
  | '\'' => some '\''
  | _ => none

/-- The character with the number that the hexadecimal digits spell. -/
def numbered? (digits : List Char) : Option Char :=
  match Decimal.readInteger 16 0 4294967295 digits with
  | .ok n => if h : n.toNat.isValidChar then some (Char.ofNatAux n.toNat h) else none
  | .error _ => none

/-- Reads up to the closing quote, with the characters found so far in `found`, the last one
first.  Gives the text and what follows the quote. -/
def readFrom (whole : List Char) :
    Mode → (found : List Char) → List Char → Except QuoteFault (List Char × List Char)
  | .plain, _, [] => .error (.unterminated whole)
  | .plain, found, c :: rest =>
    if c = '"' then .ok (found.reverse, rest)
    else if c = '\\' then readFrom whole .escape found rest
    else readFrom whole .plain (c :: found) rest
  | .escape, _, [] => .error (.unknownEscape none)
  | .escape, found, c :: rest =>
    match escaped? c with
    | some d => readFrom whole .plain (d :: found) rest
    | none => if c = 'u' then readFrom whole .brace found rest else .error (.unknownEscape (some c))
  | .brace, _, [] => .error .missingBrace
  | .brace, found, c :: rest =>
    if c = '\x7b' then readFrom whole (.number []) found rest else .error .missingBrace
  | .number digits, _, [] =>
    match numbered? digits.reverse with
    | some _ => .error (.unterminated whole)
    | none => .error (.badNumber digits.reverse)
  | .number digits, found, c :: rest =>
    if c = '\x7d' then
      match numbered? digits.reverse with
      | some d => readFrom whole .plain (d :: found) rest
      | none => .error (.badNumber digits.reverse)
    else readFrom whole (.number (c :: digits)) found rest

/-- The text that is quoted, given everything after its opening quote. -/
def decode (text : List Char) : Except QuoteFault String :=
  match readFrom text .plain [] text with
  | .error fault => .error fault
  | .ok (found, rest) =>
    let rest := Text.trim rest
    if rest.isEmpty then .ok (String.ofList found) else .error (.trailing rest)

end Quoted

/-- The wording of the fault. -/
def QuoteFault.message : QuoteFault → String
  | .unterminated text => "unterminated string `\"" ++ String.ofList text ++ "`"
  | .missingBrace => "expected `\x7b` after `\\u`"
  | .badNumber digits => "invalid unicode escape `\\u\x7b" ++ String.ofList digits ++ "\x7d`"
  | .unknownEscape none => "unknown escape None"
  | .unknownEscape (some c) => "unknown escape Some(" ++ Quoted.encodeSingle c ++ ")"
  | .trailing text => "unexpected `" ++ String.ofList text ++ "` after string"

end ClassGraft
