import ClassGraft.Bytes.BigEndian

/-!
# Reading UTF-8

`Utf8.sequence` looks at the start of a byte string and finds either a character in its shortest
UTF-8 form or the longest piece that could have begun one.  `Utf8.decode?` reads a byte string of
which every piece is a character, and `Utf8.decodeLossy` reads any byte string, with the
replacement character in place of each piece that is none.
-/

namespace ClassGraft.Utf8

/-- What stands at the start of a byte string, with the number of bytes it takes. -/
inductive Sequence where
  /-- A character in its shortest form. -/
  | char (value : Char) (width : Nat)
  /-- Bytes that no character starts with, though all but the last byte of a longer piece could
  go on to one. -/
  | broken (width : Nat)
  deriving DecidableEq, Repr

/-- Whether the byte continues a character rather than starting one. -/
def isContinuation (byte : UInt8) : Bool :=
  0x80 ≤ byte && byte ≤ 0xBF

/-- The six bits that a continuation byte carries. -/
def payload (byte : UInt8) : Nat :=
  byte.toNat % 64

/-- The second bytes that may follow the lead byte of a character of three or four bytes: fewer
than all continuation bytes where a shorter form, a surrogate or a number past the last code point
would be spelled. -/
def secondRange (lead : UInt8) : UInt8 × UInt8 :=
  if lead = 0xE0 then (0xA0, 0xBF)
  else if lead = 0xED then (0x80, 0x9F)
  else if lead = 0xF0 then (0x90, 0xBF)
  else if lead = 0xF4 then (0x80, 0x8F)
  else (0x80, 0xBF)

/-- Whether `second` may follow `lead`. -/
def isSecond (lead second : UInt8) : Bool :=
  (secondRange lead).1 ≤ second && second ≤ (secondRange lead).2

/-- The character or broken piece that starts with `lead` and goes on in `rest`. -/
def sequence (lead : UInt8) (rest : Bytes) : Sequence :=
  if lead < 0x80 then .char (Char.ofNat lead.toNat) 1
  else if lead < 0xC2 then .broken 1
  else if lead < 0xE0 then
    match rest with
    | second :: _ =>
      if isContinuation second then
        .char (Char.ofNat (lead.toNat % 32 * 64 + payload second)) 2
      else .broken 1
    | [] => .broken 1
  else if lead < 0xF0 then
    match rest with
    | second :: third :: _ =>
      if isSecond lead second then
        if isContinuation third then
          .char (Char.ofNat ((lead.toNat % 16 * 64 + payload second) * 64 + payload third)) 3
        else .broken 2
      else .broken 1
    | [second] => if isSecond lead second then .broken 2 else .broken 1
    | [] => .broken 1
  else if lead < 0xF5 then
    match rest with
    | second :: third :: fourth :: _ =>
      if isSecond lead second then
        if isContinuation third then
          if isContinuation fourth then
            .char (Char.ofNat (((lead.toNat % 8 * 64 + payload second) * 64 + payload third) * 64
              + payload fourth)) 4
          else .broken 3
        else .broken 2
      else .broken 1
    | [second, third] =>
      if isSecond lead second then if isContinuation third then .broken 3 else .broken 2
      else .broken 1
    | [second] => if isSecond lead second then .broken 2 else .broken 1
    | [] => .broken 1
  else .broken 1

/-- Reads on after `skip` more bytes, with the characters found so far in `found`, the last one
first. -/
def decodeFrom : (skip : Nat) → (found : List Char) → Bytes → Option (List Char)
  | _, found, [] => some found.reverse
  | skip + 1, found, _ :: rest => decodeFrom skip found rest
  | 0, found, lead :: rest =>
    match sequence lead rest with
    | .char value width => decodeFrom (width - 1) (value :: found) rest
    | .broken _ => none

/-- The characters that the bytes spell in UTF-8, or nothing if some piece is not a character. -/
def decode? (bytes : Bytes) : Option (List Char) :=
  decodeFrom 0 [] bytes

/-- Reads on after `skip` more bytes, replacing each piece that is no character. -/
def decodeLossyFrom : (skip : Nat) → (found : List Char) → Bytes → List Char
  | _, found, [] => found.reverse
  | skip + 1, found, _ :: rest => decodeLossyFrom skip found rest
  | 0, found, lead :: rest =>
    match sequence lead rest with
    | .char value width => decodeLossyFrom (width - 1) (value :: found) rest
    | .broken width => decodeLossyFrom (width - 1) ('\uFFFD' :: found) rest

/-- The characters that the bytes spell in UTF-8, with the replacement character in place of each
piece that is none. -/
def decodeLossy (bytes : Bytes) : List Char :=
  decodeLossyFrom 0 [] bytes

end ClassGraft.Utf8
