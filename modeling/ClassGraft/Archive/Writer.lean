import ClassGraft.Archive.Basic
import ClassGraft.Archive.Layout

/-!
# Writing archives

Entries are written as they are, without compression, and their names as text.
-/

namespace ClassGraft.Archive

open Bytes (littleEndian)

/-- The version of the format that a reader has to know. -/
def version : Bytes := littleEndian 2 20

/-- What the header of an entry and its description in the list have in common: flags, which say
that names are text, the method, time and date, the checksum, and the sizes. -/
def sharedBytes (entry : ArchiveEntry) : Bytes :=
  let size := littleEndian 4 entry.contents.length
  littleEndian 2 0x0800 ++ littleEndian 2 0 ++ littleEndian 2 0 ++ littleEndian 2 0x21
    ++ littleEndian 4 (Checksum.of entry.contents).toNat ++ size ++ size
    ++ littleEndian 2 (Bytes.ofText entry.name).length ++ littleEndian 2 0

/-- The entry with its header. -/
def entryBytes (entry : ArchiveEntry) : Bytes :=
  entryMark ++ version ++ sharedBytes entry ++ Bytes.ofText entry.name ++ entry.contents

/-- The description of an entry at an offset. -/
def listBytes (entry : ArchiveEntry) (offset : Nat) : Bytes :=
  listMark ++ version ++ version ++ sharedBytes entry ++ littleEndian 2 0 ++ littleEndian 2 0
    ++ littleEndian 2 0 ++ littleEndian 4 0 ++ littleEndian 4 offset ++ Bytes.ofText entry.name

/-- The entries from an offset on, and their descriptions; those before are written backwards. -/
def writeFrom : (offset : Nat) → (entries list : List Bytes) → List ArchiveEntry →
    List Bytes × List Bytes
  | _, entries, list, [] => (entries.reverse, list.reverse)
  | offset, entries, list, entry :: rest =>
    let bytes := entryBytes entry
    writeFrom (offset + bytes.length) (bytes :: entries) (listBytes entry offset :: list) rest

/-- The first name that an entry before has too. -/
def repeated? : (before : List String) → List String → Option String
  | _, [] => none
  | before, name :: rest =>
    if name ∈ before then some name else repeated? (name :: before) rest

/-- The archive of entries, no two of which have the same name. -/
def write (entries : List ArchiveEntry) : Except ArchiveFault Bytes :=
  match repeated? [] (entries.map (·.name)) with
  | some name => .error (.repeatedName name)
  | none =>
    let (parts, list) := writeFrom 0 [] [] entries
    let parts := parts.flatten
    let list := list.flatten
    let count := littleEndian 2 entries.length
    .ok (parts ++ list ++ endMark ++ littleEndian 2 0 ++ littleEndian 2 0 ++ count ++ count
      ++ littleEndian 4 list.length ++ littleEndian 4 parts.length ++ littleEndian 2 0)

end ClassGraft.Archive
