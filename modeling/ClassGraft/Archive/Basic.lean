import ClassGraft.Bytes.BigEndian
import ClassGraft.Text.Quoted

/-!
# Entries

What archives and directories hold, whichever of the two it is: named contents.
-/

namespace ClassGraft

/-- The text without the given end, if it ends with that. -/
def withoutEnd? (ending text : String) : Option String :=
  if text.endsWith ending then some (String.ofList (text.toList.take (text.length - ending.length)))
  else none

/-- A file of an archive or of a directory; its name is its path from the top. -/
structure ArchiveEntry where
  name : String
  contents : Bytes
  deriving DecidableEq, Repr

/-- The name of the class that the entry holds, unless it holds none. -/
def ArchiveEntry.className? (entry : ArchiveEntry) : Option String :=
  (withoutEnd? ".class" entry.name).filter fun name =>
    !name.endsWith "module-info" && !name.endsWith "package-info"

/-! ### Faults -/

/-- Why the contents of an entry cannot be had from an archive. -/
inductive ContentsFault where
  /-- They are compressed against the rules. -/
  | corrupt
  /-- They are compressed, and the end is missing. -/
  | incomplete
  /-- They are not what they were when they were put in. -/
  | badChecksum
  deriving DecidableEq, Repr

/-- The wording of the fault. -/
def ContentsFault.message : ContentsFault → String
  | corrupt => "corrupt deflate stream"
  | incomplete => "incomplete deflate stream"
  | badChecksum => "Invalid checksum"

/-- Why an archive cannot be read or written. -/
inductive ArchiveFault where
  /-- No record of the end that a list of the entries goes with. -/
  | noEnd
  /-- A record that goes on after the end of the file. -/
  | recordCut
  /-- A comment at the end that goes on after the end of the file. -/
  | commentCut
  /-- A list that would start after its end. -/
  | listAfterEnd
  | noList
  /-- A pointer to something after it. -/
  | wideEndAfterPointer
  | severalDisks
  | noWideEnd
  /-- A wide record that is shorter than what every one has. -/
  | wideEndShort
  /-- A wide record that reaches into the pointer to it. -/
  | wideEndLong
  /-- A wide record that does not reach up to the pointer to it. -/
  | wideEndGap
  /-- A wide record of another disk than the pointer says. -/
  | otherDisk
  /-- More entries than there is room for. -/
  | tooManyEntries
  /-- An entry that is locked with a password. -/
  | locked
  /-- An entry that is enciphered without being locked. -/
  | wrongPassword
  /-- An entry that is compressed in an unknown way. -/
  | unknownMethod
  | contents (name : String) (fault : ContentsFault)
  /-- Two entries of one name. -/
  | repeatedName (name : String)
  deriving DecidableEq, Repr

/-- What is said of an archive that breaks the rules. -/
def invalidArchive (reason : String) : String := "invalid Zip archive: " ++ reason

/-- The wording of the fault. -/
def ArchiveFault.message : ArchiveFault → String
  | noEnd => invalidArchive "Could not find EOCD"
  | recordCut => "i/o error: failed to fill whole buffer: failed to fill whole buffer"
  | commentCut => invalidArchive "EOCD comment exceeds file boundary"
  | listAfterEnd => invalidArchive "Invalid CDFH offset in EOCD"
  | noList => invalidArchive "No CDFH found"
  | wideEndAfterPointer => invalidArchive "Invalid EOCD64 Locator CD offset"
  | severalDisks => invalidArchive "Multi-disk ZIP files are not supported"
  | noWideEnd => invalidArchive "Could not find EOCD64"
  | wideEndShort => invalidArchive "Low EOCD64 record size"
  | wideEndLong => invalidArchive "EOCD64 extends beyond EOCD64 locator"
  | wideEndGap => invalidArchive "Invalid EOCD64: inconsistent length"
  | otherDisk => invalidArchive "Invalid EOCD64: inconsistency with Locator data"
  | tooManyEntries => invalidArchive "Invalid EOCD64: inconsistent number of files"
  | locked => "unsupported Zip archive: Password required to decrypt file"
  | wrongPassword => "provided password is incorrect"
  | unknownMethod => "unsupported Zip archive: Compression method not supported"
  | contents name fault =>
    "failed to read jar entry " ++ Quoted.encode name ++ ": " ++ fault.message
  | repeatedName name => invalidArchive ("Duplicate filename: " ++ name)

end ClassGraft
