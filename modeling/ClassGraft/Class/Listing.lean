import ClassGraft.Class.Basic
import ClassGraft.Code.Listing

/-!
# Classes as text

`ClassFile.lines` lists the constant pool, the members and the code of a class, a line each.
-/

namespace ClassGraft

/-- A record with numbered fields. -/
def recordText (name : String) (fields : List (String × Nat)) : String :=
  let fields := fields.map fun (field, value) => field ++ ": " ++ Decimal.natural value
  name ++ " \x7b " ++ String.intercalate ", " fields ++ " \x7d"

/-- The name of a member constant in records. -/
def Pool.MemberKind.recordName : Pool.MemberKind → String
  | .field => "FieldRef"
  | .method => "MethodRef"
  | .interfaceMethod => "InterfaceMethodRef"

/-- What the text of a named constant is called in records. -/
def Pool.NamedKind.recordField : Pool.NamedKind → String
  | .string => "string_index"
  | .methodType => "descriptor_index"
  | .classRef | .moduleRef | .packageRef => "name_index"

/-- A constant as the listing shows it. -/
def Pool.Entry.record : Pool.Entry → String
  | .utf8 bytes => "Utf8 " ++ Quoted.encode (ModifiedUtf8.display bytes)
  | .integer value => "Integer " ++ Decimal.integer value.toInt
  | .float bits => "Float " ++ Decimal.single bits
  | .long value => "Long " ++ Decimal.integer value.toInt
  | .double bits => "Double " ++ Decimal.double bits
  | .named kind text => recordText kind.kind.label [(kind.recordField, text.toNat)]
  | .nameAndType name descriptor =>
    recordText "NameAndType" [("name_index", name.toNat), ("descriptor_index", descriptor.toNat)]
  | .member kind owner signature =>
    recordText kind.recordName
      [("class_index", owner.toNat), ("name_and_type_index", signature.toNat)]
  | .methodHandle use target =>
    recordText "MethodHandle" [("reference_kind", use.toNat), ("reference_index", target.toNat)]
  | .dynamic kind bootstrap signature =>
    recordText kind.kind.label
      [("bootstrap_method_attribute_index", bootstrap.toNat),
        ("name_and_type_index", signature.toNat)]

/-- The name of the class at an index, or the index. -/
def Pool.classOrIndex (pool : Pool) (index : UInt16) : String :=
  match pool.className index with
  | some name => ModifiedUtf8.display name
  | none => s!"#{index}"

/-- Flags as four hexadecimal digits. -/
def flagsText (flags : UInt16) : String :=
  "0x" ++ Decimal.padLeft '0' 4 (Decimal.hex flags.toNat)

/-- An exception handler. -/
def Handler.line (pool : Pool) (handler : Handler) : String :=
  let caught := if handler.catchType = 0 then "any" else pool.classOrIndex handler.catchType
  "    catch " ++ caught ++ " from " ++ handler.start.label ++ " to " ++ handler.stop.record
    ++ " at " ++ handler.entry.label

/-- A method body: its sizes, its instructions by index, and its handlers. -/
def Body.lines (pool : Pool) (body : Body) : List String :=
  s!"    max_stack {body.maxStack}, max_locals {body.maxLocals}"
    :: (body.steps.zipIdx.map fun (step, i) =>
        "    " ++ Decimal.padLeft ' ' 4 (Decimal.natural i) ++ ": " ++ step.instruction.text pool)
    ++ body.handlers.map (Handler.line pool)

/-- A method with its attributes. -/
def Method.lines (pool : Pool) (method : Method) : List String :=
  ("  " ++ flagsText method.access ++ " " ++ method.signature pool)
    :: method.attributes.flatMap fun part =>
      match part with
      | .code body => body.lines pool
      | .other raw =>
        ["    attribute " ++ pool.utf8Text raw.name ++ s!" ({raw.info.length} bytes)"]

namespace ClassFile

/-- The listing of a class. -/
def lines (file : ClassFile) : List String :=
  let pool := file.pool
  let header := "class " ++ file.nameText
    ++ s!" (version {file.majorVersion}.{file.minorVersion}, access " ++ flagsText file.access
    ++ ")"
  let super :=
    if file.superClass = 0 then [] else ["  extends " ++ pool.classOrIndex file.superClass]
  let interfaces := file.interfaces.map fun index => "  implements " ++ pool.classOrIndex index
  let constants := pool.entries.map fun (index, entry) =>
    "  #" ++ Decimal.natural index ++ " = " ++ entry.record
  let fields := file.fields.map fun field =>
    "  " ++ flagsText field.access ++ " " ++ pool.signatureText field.name field.descriptor
  header :: super ++ interfaces ++ "constant pool:" :: constants ++ "fields:" :: fields
    ++ "methods:" :: file.methods.flatMap (Method.lines pool)

/-- The listing of a class as a text in which every line is ended. -/
def listing (file : ClassFile) : String :=
  String.join (file.lines.map (· ++ "\n"))

end ClassFile

end ClassGraft
