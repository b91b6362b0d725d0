import ClassGraft.Fault

/-!
# Reading bytes

A reader takes bytes from the front of what remains and gives a value, or the fault that stopped
it.  Faults of truncated input name the offset within the whole file, so a part is read by a reader
that keeps counting from where the part starts.  `Reader.repeated` runs a reader a given number of
times.
-/

namespace ClassGraft

/-- What remains to be read, and the offset of its first byte within the file. -/
structure Cursor where
  rest : Bytes
  offset : Nat
  deriving DecidableEq, Repr

/-- A step that takes bytes from the front of what remains. -/
abbrev Reader (α : Type) := StateT Cursor (Except ClassFault) α

namespace Reader

/-- Stops with a malformation. -/
def malformed {α : Type} (cause : Malformation) : Reader α :=
  throw (.malformed cause)

/-- The next `n` bytes. -/
def take (n : Nat) : Reader Bytes := fun cursor =>
  let bytes := cursor.rest.take n
  if bytes.length = n then .ok (bytes, ⟨cursor.rest.drop n, cursor.offset + n⟩)
  else .error (.truncated cursor.offset n bytes.length)

/-- The number in the next `n` bytes. -/
def number (n : Nat) : Reader Nat := do
  let bytes ← take n
  return Bytes.ofBigEndian bytes

def uint8 : Reader UInt8 := do return UInt8.ofNat (← number 1)

def uint16 : Reader UInt16 := do return UInt16.ofNat (← number 2)

def uint32 : Reader UInt32 := do return UInt32.ofNat (← number 4)

def uint64 : Reader UInt64 := do return UInt64.ofNat (← number 8)

def int8 : Reader Int8 := do return (← uint8).toInt8

def int16 : Reader Int16 := do return (← uint16).toInt16

def int32 : Reader Int32 := do return (← uint32).toInt32

def int64 : Reader Int64 := do return (← uint64).toInt64

/-- The bytes that remain, which are not taken. -/
def remaining : Reader Bytes := fun cursor => .ok (cursor.rest, cursor)

/-- The offset of the next byte within the file. -/
def offset : Reader Nat := fun cursor => .ok (cursor.offset, cursor)

/-- Stops with the cause for the number of bytes that remain, if any do. -/
def finished (cause : Nat → Malformation) : Reader Unit := fun cursor =>
  if cursor.rest.isEmpty then .ok ((), cursor) else .error (.malformed (cause cursor.rest.length))

/-- Reads a part of `n` bytes with a reader of its own; what that leaves is skipped. -/
def within {α : Type} (n : Nat) (reader : Reader α) : Reader α := fun cursor =>
  match take n cursor with
  | .error fault => .error fault
  | .ok (part, next) =>
    match reader ⟨part, cursor.offset⟩ with
    | .error fault => .error fault
    | .ok (value, _) => .ok (value, next)

/-- Runs the reader `n` more times, with the values read so far in `found`, the last one first. -/
def repeatedFrom {α : Type} (reader : Reader α) : (n : Nat) → (found : List α) → Reader (List α)
  | 0, found, cursor => .ok (found.reverse, cursor)
  | n + 1, found, cursor =>
    match reader cursor with
    | .error fault => .error fault
    | .ok (value, next) => repeatedFrom reader n (value :: found) next

/-- The values that the reader gives in `n` runs. -/
def repeated {α : Type} (n : Nat) (reader : Reader α) : Reader (List α) :=
  repeatedFrom reader n []

/-- A list that is preceded by its length in two bytes. -/
def list {α : Type} (reader : Reader α) : Reader (List α) := do
  let count ← uint16
  repeated count.toNat reader

/-! ### Facts -/

theorem take_append (bytes rest : Bytes) (offset : Nat) :
    take bytes.length ⟨bytes ++ rest, offset⟩ = .ok (bytes, ⟨rest, offset + bytes.length⟩) := by
  simp [take]

/-- Taking bytes fails exactly if fewer remain. -/
theorem take_eq_error_iff (n : Nat) (cursor : Cursor) (fault : ClassFault) :
    take n cursor = .error fault ↔
      cursor.rest.length < n ∧ fault = .truncated cursor.offset n cursor.rest.length := by
  unfold take
  by_cases h : cursor.rest.length < n
  · simp [List.length_take, h, Nat.min_eq_right (Nat.le_of_lt h), Nat.ne_of_lt h, eq_comm]
  · simp [List.length_take, h, Nat.min_eq_left (Nat.le_of_not_lt h)]

end Reader

end ClassGraft
