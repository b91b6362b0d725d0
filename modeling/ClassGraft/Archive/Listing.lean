import ClassGraft.Archive.Basic
import ClassGraft.Archive.Layout
import ClassGraft.Text.Utf8

/-!
# The list of an archive

The list describes each entry: its name, where it stands, and how it is stored.  Extra fields of a
description say more, or put something larger or clearer in place of what stands before.
-/

/-!
## The code page of old archives

Code page 437, in which each byte is one character: the first half of the bytes is ASCII, control
characters included, and the second half has characters of its own.
-/

namespace ClassGraft.CodePage

/-- The characters of the second half, in order. -/
def upperHalf : List Char := String.toList (
  "ÇüéâäàåçêëèïîìÄÅÉæÆôöòûùÿÖÜ¢£¥₧ƒ" ++
  "áíóúñÑªº¿⌐¬½¼¡«»░▒▓│┤╡╢╖╕╣║╗╝╜╛┐" ++
  "└┴┬├─┼╞╟╚╔╩╦╠═╬╧╨╤╥╙╘╒╓╫╪┘┌█▄▌▐▀" ++
  "αßΓπΣσµτΦΘΩδ∞φε∩≡±≥≤⌠⌡÷≈°∙·√ⁿ²■\u00a0")

/-- The character of a byte. -/
def char (byte : UInt8) : Char :=
  if byte < 0x80 then Char.ofNat byte.toNat else upperHalf.getD (byte.toNat - 0x80) ' '

/-- The characters of bytes. -/
def decode (bytes : Bytes) : List Char := bytes.map char

end ClassGraft.CodePage

/-!
## Where the list of an archive stands

The record of the end says where the list of the entries starts.  Offsets count from the start of
the archive, which need not be that of the file: the list is looked for from the offset on, and how
far away it is found says where the archive starts.

Numbers that are too large for the record have all their bits set, and stand in a wide record before
it.  A pointer right before the record of the end leads to that.
-/

namespace ClassGraft.Archive

/-- Where the list of the entries stands. -/
structure ListPlace where
  /-- Where the archive starts in the file. -/
  shift : Nat
  /-- Where the list starts in the archive. -/
  offset : Nat
  /-- The number of entries. -/
  count : Nat
  /-- Whether what else the record says fits an archive of one file. -/
  isWhole : Bool
  deriving DecidableEq, Repr

variable (data : Array UInt8)

/-- What keeps the record of the end at an offset from being all there. -/
def cutAt? (offset : Nat) : Option ArchiveFault :=
  if data.size < offset + 22 then some .recordCut
  else if data.size < offset + 22 + number data (offset + 20) 2 then some .commentCut
  else none

/-- What the record of the end at an offset says.  It counts the entries of the whole archive, and
those of them in this file.  Where the former count is zero nothing is looked for, and the list has
as many entries as the latter says. -/
def narrowPlace (record : Nat) : Except ArchiveFault ListPlace := do
  let offset := number data (record + 16) 4
  let place (shift : Nat) : ListPlace :=
    ⟨shift, offset, number data (record + 8) 2,
      number data (record + 4) 2 == number data (record + 6) 2⟩
  if number data (record + 10) 2 = 0 then return place (record - offset)
  if record ≤ offset then throw .listAfterEnd
  match find? data listMark (record - offset) offset with
  | some found => return place (found - offset)
  | none => throw .noList

/-! ### Wide records -/

/-- What the wide record at an offset says.  It has to reach up to the pointer to it; that it stands
elsewhere than the pointer says shows where the archive starts. -/
def wideRecordAt (pointer record : Nat) : Except ArchiveFault ListPlace := do
  if data.size < record + 56 then throw .recordCut
  let next := record + 12 + number data (record + 4) 8
  if next < record + 56 then throw .wideEndShort
  if pointer < next then throw .wideEndLong
  if number data (record + 20) 4 ≠ number data (pointer + 4) 4 then throw .otherDisk
  if next < pointer then throw .wideEndGap
  let offset := number data (record + 48) 8
  let count := number data (record + 32) 8
  if record < count * 46 + offset then throw .tooManyEntries
  return ⟨record - number data (pointer + 8) 8, offset, count,
    number data (record + 16) 4 == number data (record + 20) 4
      && number data (record + 24) 8 ≤ count
      && number data (record + 14) 2 ≤ number data (record + 12) 2⟩

/-- What the first wide record says that can be used, of those at the given count of offsets. -/
def wideRecordFrom (pointer : Nat) :
    (count record : Nat) → (fault : ArchiveFault) → Except ArchiveFault ListPlace
  | 0, _, fault => .error fault
  | count + 1, record, fault =>
    if hasMark data wideEndMark record then
      match wideRecordAt data pointer record with
      | .ok place => .ok place
      | .error fault => wideRecordFrom pointer count (record + 1) fault
    else wideRecordFrom pointer count (record + 1) fault

/-- What the wide record says that the pointer at an offset leads to. -/
def widePlace (pointer : Nat) : Except ArchiveFault ListPlace := do
  let record := number data (pointer + 8) 8
  if pointer ≤ record then throw .wideEndAfterPointer
  if 1 < number data (pointer + 16) 4 then throw .severalDisks
  wideRecordFrom data pointer (pointer - record) record .noWideEnd

/-- Where the list stands by the record of the end at an offset. -/
def listPlace (record : Nat) : Except ArchiveFault ListPlace :=
  let isWide := number data (record + 10) 2 = 0xFFFF || number data (record + 16) 4 = 0xFFFFFFFF
  if isWide && 20 ≤ record && hasMark data pointerMark (record - 20) then
    widePlace data (record - 20)
  else narrowPlace data record

end ClassGraft.Archive

/-! ## Descriptions of entries -/

namespace ClassGraft.Archive

/-- A step that takes bytes from the front, if there are enough of them. -/
abbrev Taking (α : Type) := StateT Bytes Option α

/-- The next bytes. -/
def take (count : Nat) : Taking Bytes := fun bytes =>
  let taken := bytes.take count
  if taken.length = count then some (taken, bytes.drop count) else none

/-- Skips bytes. -/
def skip (count : Nat) : Taking Unit := do
  let _ ← take count

/-- The number in the next bytes. -/
def takeNumber (count : Nat) : Taking Nat := return Bytes.ofLittleEndian (← take count)

/-- The description of an entry. -/
structure Description where
  /-- The bytes of the name. -/
  written : Bytes
  name : List Char
  comment : List Char
  /-- Whether the contents are locked with a password. -/
  isLocked : Bool
  /-- Whether the contents are enciphered in a way that a field describes. -/
  isCiphered : Bool
  /-- How the contents are compressed. -/
  method : Nat
  checksum : Nat
  /-- The number of bytes of the contents as they are stored. -/
  size : Nat
  /-- The number of bytes of the contents. -/
  fullSize : Nat
  /-- Where the entry starts in the archive. -/
  offset : Nat
  deriving DecidableEq, Repr

/-! ### Extra fields -/

/-- The field of numbers that are too large for the description. -/
def largeNumbers (description : Description) (length : Nat) : Taking Description := do
  let large (value : Nat) : Taking Nat :=
    if 24 ≤ length || value = 0xFFFFFFFF then takeNumber 8 else return value
  let start := (← get).length
  let fullSize ← large description.fullSize
  let size ← large description.size
  let offset ← large description.offset
  let taken := start - (← get).length
  guard (taken ≤ length)
  skip (length - taken)
  return { description with fullSize, size, offset }

/-- The field of a text in place of another one, which is known by its checksum. -/
def clearText (unclear : Bytes) (length : Nat) : Taking (Bytes × List Char) := do
  skip 1
  let checksum ← takeNumber 4
  guard (5 ≤ length && (Checksum.of unclear).toNat == checksum)
  let written ← take (length - 5)
  let text ← liftM (m := Option) (Utf8.decode? written)
  return (written, text)

/-- The field of times, which flags in front of it tell.  In the shortest form it is one time,
whatever the flags. -/
def times (length : Nat) : Taking Unit := do
  let flags ← takeNumber 1
  let count (bits : Nat) : Nat := ((List.range bits).filter flags.testBit).length
  guard (length = 5 || length = 1 + 4 * count 8)
  skip (4 * if length = 5 then 1 else count 3)

/-- The field of finer times. -/
def fineTimes (length : Nat) : Taking Unit := do
  guard (length = 32)
  skip 4
  guard ((← takeNumber 2) = 1 && (← takeNumber 2) = 24)
  skip 24

/-- The field of a cipher, which says how the contents are compressed. -/
def cipher (description : Description) (length : Nat) : Taking Description := do
  guard (length = 7)
  let version ← takeNumber 2
  let maker ← takeNumber 2
  let strength ← takeNumber 1
  let method ← takeNumber 2
  guard ([1, 2].contains version && maker == 0x4541 && [1, 2, 3].contains strength)
  return { description with isCiphered := true, method }

/-- The field of a kind. -/
def field (description : Description) (kind length : Nat) : Taking Description := do
  match kind with
  | 0x0001 => largeNumbers description length
  | 0x000A => fineTimes length; return description
  | 0x5455 => times length; return description
  | 0x6375 =>
    let (_, comment) ← clearText (Bytes.ofText (String.ofList description.comment)) length
    return { description with comment }
  | 0x7075 =>
    let (written, name) ← clearText description.written length
    return { description with written, name }
  | 0x9901 => cipher description length
  | _ => skip length; return description

/-- All fields; a single byte after them is left alone. -/
def fields : (fuel : Nat) → Description → Taking Description
  | 0, description => return description
  | fuel + 1, description => do
    if (← get).length < 2 then return description
    let kind ← takeNumber 2
    let length ← takeNumber 2
    fields fuel (← field description kind length)

/-! ### Descriptions -/

/-- The method that stands for one that a field of a cipher says. -/
def cipherMethod : Nat := 99

/-- The next description. -/
def takeDescription : Taking Description := do
  guard ((← take 4) == listMark)
  skip 4
  let flags ← takeNumber 2
  let method ← takeNumber 2
  skip 4
  let checksum ← takeNumber 4
  let size ← takeNumber 4
  let fullSize ← takeNumber 4
  let nameLength ← takeNumber 2
  let extraLength ← takeNumber 2
  let commentLength ← takeNumber 2
  skip 8
  let offset ← takeNumber 4
  let written ← take nameLength
  let extra ← take extraLength
  let comment ← take commentLength
  let text (bytes : Bytes) : List Char :=
    if flags.testBit 11 then Utf8.decodeLossy bytes else CodePage.decode bytes
  let start : Description :=
    ⟨written, text written, text comment, flags.testBit 0, false, method, checksum, size, fullSize,
      offset⟩
  let (description, _) ← liftM (m := Option) ((fields extra.length start).run extra)
  guard (description.method ≠ cipherMethod || description.isCiphered)
  return description

/-- An entry as it is stored in a file. -/
structure StoredEntry where
  name : String
  /-- Whether the contents are locked with a password. -/
  isLocked : Bool
  /-- Whether the contents are enciphered in a way that the list describes. -/
  isCiphered : Bool
  /-- How the contents are compressed. -/
  method : Nat
  /-- The checksum of the contents. -/
  checksum : Nat
  /-- The number of bytes of the contents as they are stored. -/
  size : Nat
  /-- Where the contents start. -/
  start : Nat
  deriving DecidableEq, Repr

variable (data : Array UInt8)

/-- The entry with a description.  Its contents start before the list, after its header. -/
def storedEntry (place : ListPlace) (description : Description) : Option StoredEntry := do
  let header := place.shift + description.offset
  let start := header + 30 + number data (header + 26) 2 + number data (header + 28) 2
  guard (hasMark data entryMark header && start ≤ place.shift + place.offset)
  return ⟨String.ofList description.name, description.isLocked, description.isCiphered,
    description.method, description.checksum, description.size, start⟩

/-- The next entries; those before are in `found`, the last one first. -/
def storedEntriesFrom (place : ListPlace) :
    (count : Nat) → (found : List StoredEntry) → Bytes → Option (List StoredEntry)
  | 0, found, _ => some found.reverse
  | count + 1, found, bytes => do
    let (description, rest) ← takeDescription.run bytes
    storedEntriesFrom place count ((← storedEntry data place description) :: found) rest

/-- The entries of the list at a place, if there is one. -/
def storedEntries? (place : ListPlace) : Option (List StoredEntry) :=
  if place.isWhole then
    storedEntriesFrom data place place.count [] (slice data (place.shift + place.offset) data.size)
  else none

end ClassGraft.Archive
