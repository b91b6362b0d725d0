import ClassGraft.Pool.Lookup

/-!
# The constant pool in a file

The pool stands in a file as its number of slots, one more than there are, and its entries in order.
After reading them every reference between entries is checked to lead to an entry of a fitting
kind.
-/

namespace ClassGraft.Pool

/-! ### Writing -/

/-- The pool as it stands in the file, or the length of a text that is too long for it. -/
def bytes (pool : Pool) : Except ClassFault Bytes :=
  let entries := pool.slots.toList.reduceOption
  match entries.findSome? Entry.oversize? with
  | some length => .error (.unencodable (.tooLarge length 16))
  | none => .ok (Bytes.ofUInt16 pool.count ++ entries.flatMap Entry.bytes)

/-! ### References -/

/-- A reference of an entry: what it is called, where it leads, and the kinds it may lead to. -/
structure Reference where
  role : String
  target : UInt16
  kinds : List Kind
  deriving DecidableEq, Repr

/-- The kinds of members that a handle for a use may lead to. -/
def handleKinds? (use : UInt8) : Option (List Kind) :=
  match use.toNat with
  | 1 | 2 | 3 | 4 => some [.field]
  | 5 | 8 => some [.method]
  | 6 | 7 => some [.method, .interfaceMethod]
  | 9 => some [.interfaceMethod]
  | _ => none

/-- What the text of a named constant is called. -/
def NamedKind.role : NamedKind → String
  | .string => "string index"
  | .methodType => "descriptor index"
  | .classRef | .moduleRef | .packageRef => "name index"

/-- The references of an entry, or nothing for a handle of an unknown use. -/
def Entry.references? : Entry → Option (List Reference)
  | .utf8 _ | .integer _ | .float _ | .long _ | .double _ => some []
  | .named kind text => some [⟨kind.role, text, [.utf8]⟩]
  | .nameAndType name descriptor =>
    some [⟨"name index", name, [.utf8]⟩, ⟨"descriptor index", descriptor, [.utf8]⟩]
  | .member _ owner signature =>
    some [⟨"class index", owner, [.classRef]⟩,
      ⟨"name and type index", signature, [.nameAndType]⟩]
  | .methodHandle use target =>
    (handleKinds? use).map fun kinds => [⟨"reference index", target, kinds⟩]
  | .dynamic _ _ signature => some [⟨"name and type index", signature, [.nameAndType]⟩]

/-- What is wrong with a reference of the entry at an index. -/
def referenceFault? (pool : Pool) (index : Nat) (entry : Entry) (reference : Reference) :
    Option Malformation :=
  match pool.get reference.target with
  | some found =>
    if found.kind ∈ reference.kinds then none
    else some (.badReference entry.kind index reference.role reference.target (some found.kind))
  | none => some (.badReference entry.kind index reference.role reference.target none)

/-- What is wrong with the references of the entry at an index. -/
def entryFault? (pool : Pool) (index : Nat) (entry : Entry) : Option Malformation :=
  match entry, entry.references? with
  | .methodHandle use _, none => some (.badHandleKind index use)
  | _, none => none
  | _, some references => references.findSome? (pool.referenceFault? index entry)

/-- What is wrong with the first entry whose references do not fit. -/
def fault? (pool : Pool) : Option Malformation :=
  pool.entries.findSome? fun (index, entry) => pool.entryFault? index entry

/-! ### Reading -/

/-- Reads entries for the remaining slots of a pool. -/
def readSlots : (slots : Nat) → (pool : Pool) → pool.slots.size + slots < 65535 → Reader Pool
  | 0, pool, _, cursor => .ok (pool, cursor)
  | 1, pool, _, cursor =>
    let index := pool.slots.size + 1
    match Entry.read index cursor with
    | .error fault => .error fault
    | .ok (entry, next) =>
      if hw : entry.isWide then .error (.malformed (.wideAtEnd entry.kind index))
      else .ok (pool.push entry (by simp only [Entry.width, hw]; simp; omega), next)
  | slots + 2, pool, h, cursor =>
    match Entry.read (pool.slots.size + 1) cursor with
    | .error fault => .error fault
    | .ok (entry, next) =>
      if hw : entry.isWide then
        readSlots slots (pool.push entry (by simp only [Entry.width, hw]; simp; omega))
          (by simp [push, slotsOf, hw]; omega) next
      else
        readSlots (slots + 1) (pool.push entry (by simp only [Entry.width, hw]; simp; omega))
          (by simp [push, slotsOf, hw]; omega) next

/-- The constant pool that stands next. -/
def read : Reader Pool := do
  let count ← Reader.uint16
  if count = 0 then Reader.malformed .noPool
  let pool ← readSlots (count.toNat - 1) empty
    (by have := count.toNat_lt; simp [empty]; omega)
  match pool.fault? with
  | some fault => Reader.malformed fault
  | none => return pool

end ClassGraft.Pool
