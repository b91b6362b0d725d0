import ClassGraft.Class.Basic
import ClassGraft.Code.Read
import ClassGraft.Pool.File

/-!
# Reading class files

`ClassFile.parse` reads a class file.  The bodies of methods are decoded to instructions, all other
attributes are kept as bytes, and nothing may follow the class.
-/

namespace ClassGraft

/-- An index that must lead to a class. -/
def Pool.readClassIndex (pool : Pool) (role : String) : Reader UInt16 := do
  let index ← Reader.uint16
  if pool.isClass index then return index else Reader.malformed (.notClass role index)

/-- An index that must lead to a text. -/
def Pool.readTextIndex (pool : Pool) (role : String) : Reader UInt16 := do
  let index ← Reader.uint16
  if (pool.utf8 index).isSome then return index else Reader.malformed (.notUtf8 role index)

/-- An attribute that is kept as its bytes. -/
def RawAttribute.read (pool : Pool) : Reader RawAttribute := do
  let name ← pool.readTextIndex "attribute name"
  let length ← Reader.uint32
  return ⟨name, ← Reader.take length.toNat⟩

/-- A field. -/
def Field.read (pool : Pool) : Reader Field := do
  let access ← Reader.uint16
  let name ← pool.readTextIndex "field name"
  let descriptor ← pool.readTextIndex "field descriptor"
  return ⟨access, name, descriptor, ← Reader.list (RawAttribute.read pool)⟩

/-- Reads attributes of the method with the given name; only one of them may be a body. -/
def MethodAttribute.readFrom (pool : Pool) (method : UInt16) :
    (count : Nat) → (found : List MethodAttribute) → Reader (List MethodAttribute)
  | 0, found => return found.reverse
  | count + 1, found => do
    let name ← pool.readTextIndex "attribute name"
    let length ← Reader.uint32
    let start ← Reader.offset
    let info ← Reader.take length.toNat
    if pool.utf8Is name "Code" then
      if found.any (·.body?.isSome) then
        Reader.malformed (.secondCode ((pool.utf8 method).getD []))
      let (body, _) ← liftM (Body.read name pool ⟨info, start⟩)
      readFrom pool method count (.code body :: found)
    else readFrom pool method count (.other ⟨name, info⟩ :: found)

/-- A method. -/
def Method.read (pool : Pool) : Reader Method := do
  let access ← Reader.uint16
  let name ← pool.readTextIndex "method name"
  let descriptor ← pool.readTextIndex "method descriptor"
  let count ← Reader.uint16
  return ⟨access, name, descriptor, ← MethodAttribute.readFrom pool name count.toNat []⟩

namespace ClassFile

/-- The number that class files start with. -/
def magic : UInt32 := 0xCAFEBABE

/-- The oldest and the newest supported version. -/
def isSupported (major : UInt16) : Bool := 45 ≤ major && major ≤ 68

/-- A class. -/
def read : Reader ClassFile := do
  let found ← Reader.uint32
  if found != magic then Reader.malformed (.badMagic found)
  let minor ← Reader.uint16
  let major ← Reader.uint16
  if !isSupported major then Reader.malformed (.badVersion major minor)
  let pool ← Pool.read
  let access ← Reader.uint16
  let thisClass ← pool.readClassIndex "this class"
  let superClass ← Reader.uint16
  if superClass != 0 && (pool.className superClass).isNone then
    Reader.malformed (.notClass "super class" superClass)
  let interfaces ← Reader.list (pool.readClassIndex "interface")
  let fields ← Reader.list (Field.read pool)
  let methods ← Reader.list (Method.read pool)
  let attributes ← Reader.list (RawAttribute.read pool)
  Reader.finished .trailing
  return ⟨minor, major, pool, access, thisClass, superClass, interfaces, fields, methods,
    attributes⟩

/-- The class in a class file. -/
def parse (bytes : Bytes) : Except ClassFault ClassFile :=
  (read ⟨bytes, 0⟩).map (·.1)

end ClassFile

end ClassGraft
