import ClassGraft.Class.Read
import ClassGraft.Code.Write

/-!
# Writing class files

`ClassFile.serialize` writes a class.  A body that was not changed is written as the bytes that were
read; a changed one must have been encoded again before.
-/

namespace ClassGraft

/-- A field as it stands in the file. -/
def Field.bytes (field : Field) : Except ClassFault Bytes := do
  let attributes ← Bytes.listOf RawAttribute.bytes field.attributes
  return Bytes.ofUInt16 field.access ++ Bytes.ofUInt16 field.name
    ++ Bytes.ofUInt16 field.descriptor ++ attributes

/-- An attribute of a method as it stands in the file; `method` is shown in faults. -/
def MethodAttribute.bytes (method : String) : MethodAttribute → Except ClassFault Bytes
  | .code body =>
    match body.encoded with
    | some info => RawAttribute.bytes ⟨body.name, info⟩
    | none => .error (.unencodable (.stale method))
  | .other raw => raw.bytes

/-- A method as it stands in the file. -/
def Method.bytes (pool : Pool) (method : Method) : Except ClassFault Bytes := do
  let attributes ← Bytes.listOf (MethodAttribute.bytes (method.signature pool)) method.attributes
  return Bytes.ofUInt16 method.access ++ Bytes.ofUInt16 method.name
    ++ Bytes.ofUInt16 method.descriptor ++ attributes

namespace ClassFile

/-- The class as a class file. -/
def serialize (file : ClassFile) : Except ClassFault Bytes := do
  let pool ← file.pool.bytes
  let interfaces ← Bytes.tableOf (fun index => [index]) file.interfaces
  let fields ← Bytes.listOf Field.bytes file.fields
  let methods ← Bytes.listOf (Method.bytes file.pool) file.methods
  let attributes ← Bytes.listOf RawAttribute.bytes file.attributes
  return Bytes.ofUInt32 magic ++ Bytes.ofUInt16 file.minorVersion
    ++ Bytes.ofUInt16 file.majorVersion ++ pool ++ Bytes.ofUInt16 file.access
    ++ Bytes.ofUInt16 file.thisClass ++ Bytes.ofUInt16 file.superClass ++ interfaces ++ fields
    ++ methods ++ attributes

end ClassFile

end ClassGraft
