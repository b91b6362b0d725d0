import ClassGraft.Bytes.Reader

/-!
# Constants

An entry of the constant pool: a text, a number, or a reference to other entries by their indices.
`Entry.bytes` writes an entry as it stands in the file and `Entry.read` reads it.
-/

namespace ClassGraft.Pool

/-- The constants that give a text another meaning. -/
inductive NamedKind where
  | classRef
  | string
  | methodType
  | moduleRef
  | packageRef
  deriving DecidableEq, Repr, Hashable

/-- The constants that refer to a member of a class. -/
inductive MemberKind where
  | field
  | method
  | interfaceMethod
  deriving DecidableEq, Repr, Hashable

/-- The constants that a bootstrap method computes: a value, or the target of a call. -/
inductive DynamicKind where
  | value
  | call
  deriving DecidableEq, Repr, Hashable

def NamedKind.kind : NamedKind → Kind
  | .classRef => .classRef
  | .string => .string
  | .methodType => .methodType
  | .moduleRef => .moduleRef
  | .packageRef => .packageRef

def MemberKind.kind : MemberKind → Kind
  | .field => .field
  | .method => .method
  | .interfaceMethod => .interfaceMethod

def DynamicKind.kind : DynamicKind → Kind
  | .value => .dynamic
  | .call => .invokeDynamic

/-- A constant. -/
inductive Entry where
  /-- A text in modified UTF-8. -/
  | utf8 (bytes : Bytes)
  | integer (value : Int32)
  | float (bits : UInt32)
  | long (value : Int64)
  | double (bits : UInt64)
  /-- A text that names a class, is a string, and so on. -/
  | named (kind : NamedKind) (text : UInt16)
  | nameAndType (name descriptor : UInt16)
  | member (kind : MemberKind) (owner signature : UInt16)
  /-- A handle to a member, for one of nine uses. -/
  | methodHandle (use : UInt8) (target : UInt16)
  | dynamic (kind : DynamicKind) (bootstrap signature : UInt16)
  deriving DecidableEq, Repr, Hashable

namespace Entry

/-- The kind of the entry. -/
def kind : Entry → Kind
  | utf8 _ => .utf8
  | integer _ => .integer
  | float _ => .float
  | long _ => .long
  | double _ => .double
  | named kind _ => kind.kind
  | nameAndType _ _ => .nameAndType
  | member kind _ _ => kind.kind
  | methodHandle _ _ => .methodHandle
  | dynamic kind _ _ => kind.kind

/-- Whether the entry takes two slots of the pool. -/
def isWide (entry : Entry) : Bool := entry.kind.isWide

/-- The number of slots that the entry takes. -/
def width (entry : Entry) : Nat := if entry.isWide then 2 else 1

/-! ### Reading and writing -/

/-- The body of an entry of the kind. -/
def readBody : Kind → Reader Entry
  | .utf8 => do
    let length ← Reader.uint16
    return utf8 (← Reader.take length.toNat)
  | .integer => do return integer (← Reader.int32)
  | .float => do return float (← Reader.uint32)
  | .long => do return long (← Reader.int64)
  | .double => do return double (← Reader.uint64)
  | .classRef => do return named .classRef (← Reader.uint16)
  | .string => do return named .string (← Reader.uint16)
  | .methodType => do return named .methodType (← Reader.uint16)
  | .moduleRef => do return named .moduleRef (← Reader.uint16)
  | .packageRef => do return named .packageRef (← Reader.uint16)
  | .field => do return member .field (← Reader.uint16) (← Reader.uint16)
  | .method => do return member .method (← Reader.uint16) (← Reader.uint16)
  | .interfaceMethod => do return member .interfaceMethod (← Reader.uint16) (← Reader.uint16)
  | .nameAndType => do return nameAndType (← Reader.uint16) (← Reader.uint16)
  | .methodHandle => do return methodHandle (← Reader.uint8) (← Reader.uint16)
  | .dynamic => do return dynamic .value (← Reader.uint16) (← Reader.uint16)
  | .invokeDynamic => do return dynamic .call (← Reader.uint16) (← Reader.uint16)

/-- The entry that stands next, which is to get the given index. -/
def read (index : Nat) : Reader Entry := do
  let tag ← Reader.uint8
  match Kind.ofTag? tag with
  | some kind => readBody kind
  | none => Reader.malformed (.unknownTag tag index)

/-- The body of the entry as it stands in the file.  A text is written with its length modulo
2^16; longer ones are refused before. -/
def body : Entry → Bytes
  | utf8 bytes => Bytes.ofUInt16 (UInt16.ofNat bytes.length) ++ bytes
  | integer value => Bytes.ofInt32 value
  | float bits => Bytes.ofUInt32 bits
  | long value => Bytes.ofInt64 value
  | double bits => Bytes.ofUInt64 bits
  | named _ text => Bytes.ofUInt16 text
  | nameAndType name descriptor => Bytes.ofUInt16 name ++ Bytes.ofUInt16 descriptor
  | member _ owner signature => Bytes.ofUInt16 owner ++ Bytes.ofUInt16 signature
  | methodHandle use target => use :: Bytes.ofUInt16 target
  | dynamic _ bootstrap signature => Bytes.ofUInt16 bootstrap ++ Bytes.ofUInt16 signature

/-- The entry as it stands in the file. -/
def bytes (entry : Entry) : Bytes := entry.kind.tag :: entry.body

/-- The length of the text, if the entry is one that is too long to be written. -/
def oversize? : Entry → Option Nat
  | utf8 bytes => if bytes.length < 65536 then none else some bytes.length
  | _ => none

end Entry

end ClassGraft.Pool
