import ClassGraft.Archive.Deflate
import ClassGraft.Archive.Listing

/-!
# Reading archives

The record of the end is the last one in the file that a readable list goes with.  Of entries with
one name the last one counts, in the place of the first one.  Directories are left out.
-/

namespace ClassGraft.Archive

variable (data : Array UInt8)

/-- The entries by the last record of the end before an offset.  `fault` is what was wrong with the
records after that.  A record that is not all there is told only if nothing else is; a readable one
without a readable list is none at all. -/
def storedEntriesBefore :
    (offset : Nat) → (fault : Option ArchiveFault) → Except ArchiveFault (List StoredEntry)
  | 0, fault => .error (fault.getD .noEnd)
  | offset + 1, fault =>
    if hasMark data endMark offset then
      match cutAt? data offset with
      | some cut => storedEntriesBefore offset (some (fault.getD cut))
      | none =>
        match listPlace data offset with
        | .error fault => storedEntriesBefore offset (some fault)
        | .ok place =>
          match storedEntries? data place with
          | some entries => .ok entries
          | none => storedEntriesBefore offset none
    else storedEntriesBefore offset fault

/-- The entries in order, of those with one name the last one in place of the first one. -/
def lastOfEachName (entries : List StoredEntry) : List StoredEntry :=
  let backwards := entries.reverse
  (entries.map (·.name)).eraseDups.filterMap fun name => backwards.find? (·.name == name)

/-- The contents of an entry. -/
def contents (entry : StoredEntry) : Except ContentsFault Bytes := do
  let stored := slice data entry.start entry.size
  let contents ← if entry.method = 8 then Deflate.inflate stored else pure stored
  if (Checksum.of contents).toNat ≠ entry.checksum then throw .badChecksum
  return contents

/-- The entry as it is stored, unless it is a directory. -/
def fileOf (entry : StoredEntry) : Except ArchiveFault (Option ArchiveEntry) := do
  if entry.isLocked then throw .locked
  if entry.isCiphered then throw .wrongPassword
  unless [0, 8].contains entry.method do throw .unknownMethod
  if entry.name.endsWith "/" || entry.name.endsWith "\\" then return none
  let contents ← (contents data entry).mapError (.contents entry.name)
  return some ⟨entry.name, contents⟩

/-- The entries of an archive. -/
def read (bytes : Bytes) : Except ArchiveFault (List ArchiveEntry) := do
  let data := bytes.toArray
  let entries ← storedEntriesBefore data data.size none
  return (← (lastOfEachName entries).mapM (fileOf data)).filterMap id

end ClassGraft.Archive
