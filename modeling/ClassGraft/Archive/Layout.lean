import ClassGraft.Bytes.BigEndian

/-!
# The layout of archives

An archive has its entries one after another, each after a header, then a list of descriptions of
them all, and at its end a record that says where the list stands.  Each of these starts with a mark
of four bytes.
-/

/-!
## Little-endian numbers

Archives write every number with its least significant byte first, which is the big-endian form
backwards.  Reading what was written gives the number modulo `256 ^ n`
(`ofLittleEndian_littleEndian`).
-/

namespace ClassGraft.Bytes

/-- The number `v` in `n` bytes, the least significant one first; higher digits are dropped. -/
def littleEndian (n v : Nat) : Bytes := (bigEndian n v).reverse

/-- The number that the bytes spell with the least significant one first. -/
def ofLittleEndian (bytes : Bytes) : Nat := ofBigEndian bytes.reverse

@[simp] theorem length_littleEndian (n v : Nat) : (littleEndian n v).length = n := by
  simp [littleEndian]

/-- Reading back what was written gives the number without the digits that were dropped. -/
theorem ofLittleEndian_littleEndian (n v : Nat) :
    ofLittleEndian (littleEndian n v) = v % Nat.pow 256 n := by
  simp only [ofLittleEndian, littleEndian, List.reverse_reverse, ofBigEndian_bigEndian]

end ClassGraft.Bytes

/-! ## Marks and numbers of a file -/

namespace ClassGraft.Archive

/-- The mark of the header of an entry. -/
def entryMark : Bytes := [0x50, 0x4B, 0x03, 0x04]

/-- The mark of the description of an entry in the list. -/
def listMark : Bytes := [0x50, 0x4B, 0x01, 0x02]

/-- The mark of the record of the end. -/
def endMark : Bytes := [0x50, 0x4B, 0x05, 0x06]

/-- The mark of the wide record of the end, whose numbers have more bytes. -/
def wideEndMark : Bytes := [0x50, 0x4B, 0x06, 0x06]

/-- The mark of the pointer to the wide record of the end. -/
def pointerMark : Bytes := [0x50, 0x4B, 0x06, 0x07]

/-! ### Looking into a file -/

variable (data : Array UInt8)

/-- The bytes from an offset on. -/
def slice (offset count : Nat) : Bytes := (data.extract offset (offset + count)).toList

/-- The number in the bytes from an offset on. -/
def number (offset count : Nat) : Nat := Bytes.ofLittleEndian (slice data offset count)

/-- Whether a mark stands at an offset. -/
def hasMark (mark : Bytes) (offset : Nat) : Bool := slice data offset 4 == mark

/-- The first of the given count of offsets at which a mark stands. -/
def find? (mark : Bytes) : (count offset : Nat) → Option Nat
  | 0, _ => none
  | count + 1, offset =>
    if hasMark data mark offset then some offset else find? mark count (offset + 1)

end ClassGraft.Archive

/-!
## Checksums of archives

The cyclic redundancy check of 32 bits that archives keep of each of their files: the remainder of
the contents, read as a polynomial over two elements with the lowest bit of each byte first.
-/

namespace ClassGraft.Checksum

/-- The polynomial that is divided by, without its highest term, the highest of the others in the
lowest bit. -/
def polynomial : UInt32 := 0xEDB88320

/-- Divides on by one bit. -/
def bitStep (remainder : UInt32) : UInt32 :=
  if remainder &&& 1 = 0 then remainder >>> 1 else (remainder >>> 1) ^^^ polynomial

/-- Divides on by one byte. -/
def byteStep (remainder : UInt32) (byte : UInt8) : UInt32 :=
  Nat.repeat bitStep 8 (remainder ^^^ byte.toUInt32)

/-- The checksum of bytes. -/
def of (bytes : Bytes) : UInt32 := ~~~(bytes.foldl byteStep 0xFFFFFFFF)

end ClassGraft.Checksum
