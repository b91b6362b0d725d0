import ClassGraft.Text.Utf8

/-!
# Modified UTF-8

Class files spell text in a variant of UTF-8 in which the character U+0000 takes two bytes and a
character beyond U+FFFF takes six, three for each half of its surrogate pair.  `encode` writes that
form.  `decode` reads it, and takes ordinary UTF-8 as well, which it tries first; its answer is a
list of code points, because a class file may hold one half of a surrogate pair alone.
`display` shows the text of any bytes.

The three are those of a library of texts (`Library`), which keeps texts of its own that may hold
half of a pair; what is asked of it leaves open how it does so.
-/

namespace ClassGraft

/-- Where bytes stop being a text: the offset of the first sequence that is none, and its length
unless the bytes end inside it. -/
structure BadSequence where
  start : Nat
  length : Option Nat
  deriving DecidableEq, Repr

namespace BadSequence

/-- The record of a bad sequence as error messages show it. -/
def message (bad : BadSequence) : String :=
  let length := match bad.length with
    | none => "None"
    | some n => s!"Some({n})"
  s!"Utf8Error \x7b valid_up_to: {bad.start}, error_len: {length} \x7d"

end BadSequence

namespace ModifiedUtf8

/-! ### Writing -/

/-- Three bytes for a number below 2^16: a character that takes three, or half of a surrogate
pair. -/
def encodeUnit (unit : Nat) : Bytes :=
  [UInt8.ofNat (0xE0 + unit / 4096), UInt8.ofNat (0x80 + unit / 64 % 64),
    UInt8.ofNat (0x80 + unit % 64)]

/-- The first half of the surrogate pair of a code point beyond U+FFFF. -/
def highHalf (code : Nat) : Nat :=
  0xD800 + (code - 0x10000) / 1024

/-- The second half of the surrogate pair of a code point beyond U+FFFF. -/
def lowHalf (code : Nat) : Nat :=
  0xDC00 + (code - 0x10000) % 1024

/-- The bytes of one character. -/
def encodeChar (c : Char) : Bytes :=
  if c.toNat = 0 then [0xC0, 0x80]
  else if c.toNat < 0x10000 then String.utf8EncodeChar c
  else encodeUnit (highHalf c.toNat) ++ encodeUnit (lowHalf c.toNat)

/-- The bytes of a text. -/
def encode (text : String) : Bytes :=
  text.toList.flatMap encodeChar

/-! ### Reading -/

/-- Whether the code point is the first half of a surrogate pair. -/
def isHigh (code : Nat) : Bool :=
  0xD800 ≤ code && code < 0xDC00

/-- Whether the code point is the second half of a surrogate pair. -/
def isLow (code : Nat) : Bool :=
  0xDC00 ≤ code && code < 0xE000

/-- The sequence that starts with `lead` and goes on in `rest`: its number and its width, or its
faulty length.  After any lead byte from 0x80 on a continuation byte is asked for first. -/
def unit (lead : UInt8) (rest : Bytes) : Except (Option Nat) (Nat × Nat) :=
  if lead = 0 then .error (some 1)
  else if lead < 0x80 then .ok (lead.toNat, 1)
  else
    match rest with
    | [] => .error none
    | second :: rest =>
      if lead = 0xC0 then
        if second = 0x80 then .ok (0, 2) else .error (some 1)
      else if !Utf8.isContinuation second then .error (some 1)
      else if lead < 0xC2 then .error (some 1)
      else if lead < 0xE0 then .ok (lead.toNat % 32 * 64 + Utf8.payload second, 2)
      else if lead < 0xF0 then
        match rest with
        | [] => .error none
        | third :: _ =>
          if !Utf8.isContinuation third then .error (some 2)
          else if lead = 0xE0 && second < 0xA0 then .error (some 1)
          else .ok ((lead.toNat % 16 * 64 + Utf8.payload second) * 64 + Utf8.payload third, 3)
      else .error (some 1)

/-- Reads on at offset `start` after `skip` more bytes, with the numbers found so far in `found`,
the last one first. -/
def unitsFrom : (start skip : Nat) → (found : List Nat) → Bytes → Except BadSequence (List Nat)
  | _, _, found, [] => .ok found.reverse
  | start, skip + 1, found, _ :: rest => unitsFrom (start + 1) skip found rest
  | start, 0, found, lead :: rest =>
    match unit lead rest with
    | .ok (code, width) => unitsFrom (start + 1) (width - 1) (code :: found) rest
    | .error length => .error ⟨start, length⟩

/-- Joins the two halves of each surrogate pair into its code point. -/
def joinFrom : (found : List Nat) → List Nat → List Nat
  | found, [] => found.reverse
  | found, [code] => (code :: found).reverse
  | found, high :: low :: rest =>
    if isHigh high && isLow low then
      joinFrom ((0x10000 + (high - 0xD800) * 1024 + (low - 0xDC00)) :: found) rest
    else joinFrom (high :: found) (low :: rest)

/-- The code points that the bytes spell, in ordinary or else in modified UTF-8. -/
def decode (bytes : Bytes) : Except BadSequence (List Nat) :=
  match Utf8.decode? bytes with
  | some chars => .ok (chars.map Char.toNat)
  | none => (unitsFrom 0 0 [] bytes).map (joinFrom [])

/-- Whether a code point is a character, which half of a surrogate pair is not. -/
def isCharacter (code : Nat) : Bool :=
  code < 0xD800 || 0xE000 ≤ code

/-- The text of code points among which no half of a surrogate pair stands alone. -/
def textOf? (codes : List Nat) : Option String :=
  if codes.all isCharacter then some (String.ofList (codes.map Char.ofNat)) else none

/-- The text of bytes for display.  Bytes that are no text show their characters of ordinary
UTF-8, with a replacement character for everything else. -/
def display (bytes : Bytes) : String :=
  match (decode bytes).toOption.bind textOf? with
  | some text => text
  | none => String.ofList (Utf8.decodeLossy bytes)

/-! ### Libraries of texts -/

/-- A library of the texts that class files may hold, with its functions that are called here. -/
structure Library where
  /-- Texts in which half of a surrogate pair may stand alone. -/
  Text : Type
  /-- What is wrong with bytes that are no text. -/
  Fault : Type
  codes : Text → List Nat
  ofString : String → Text
  /-- The text as a string, unless half of a pair stands alone in it. -/
  toString? : Text → Option String
  toModifiedUtf8 : Text → Bytes
  /-- The text that the bytes spell, in ordinary or else in modified UTF-8. -/
  ofModifiedUtf8 : Bytes → Except Fault Text
  /-- The record of a fault as error messages show it. -/
  record : Fault → String

namespace Library

variable (library : Library)

/-- The bytes of a string. -/
def encode (text : String) : Bytes :=
  library.toModifiedUtf8 (library.ofString text)

/-- The text of bytes, or the record of what is wrong with them. -/
def decode (bytes : Bytes) : Except String library.Text :=
  (library.ofModifiedUtf8 bytes).mapError library.record

/-- The text of bytes for display, with a replacement character for what is no text. -/
def display (bytes : Bytes) : String :=
  match (library.decode bytes).toOption.bind library.toString? with
  | some text => text
  | none => String.ofList (Utf8.decodeLossy bytes)

end Library

end ModifiedUtf8

end ClassGraft
