import ClassGraft.Code.Body
import ClassGraft.Pool.Intern

/-!
# Classes

A class as its file states it.  Names and descriptors are indices into its constant pool, so that
what nobody changes is written as it was read.
-/

namespace ClassGraft

/-! ### Flags of classes and members -/

namespace Access

def isStatic : UInt16 := 0x0008
def isNative : UInt16 := 0x0100
def isInterface : UInt16 := 0x0200
def isAbstract : UInt16 := 0x0400

/-- Whether the flags hold one of the others. -/
def has (flags flag : UInt16) : Bool := flags &&& flag != 0

end Access

/-- A field of a class. -/
structure Field where
  access : UInt16
  name : UInt16
  descriptor : UInt16
  attributes : List RawAttribute
  deriving DecidableEq, Repr

/-- An attribute of a method. -/
inductive MethodAttribute where
  | code (body : Body)
  | other (raw : RawAttribute)
  deriving DecidableEq, Repr

/-- A method of a class. -/
structure Method where
  access : UInt16
  name : UInt16
  descriptor : UInt16
  attributes : List MethodAttribute
  deriving DecidableEq, Repr

/-- A class. -/
structure ClassFile where
  minorVersion : UInt16
  majorVersion : UInt16
  pool : Pool
  access : UInt16
  thisClass : UInt16
  /-- The index of the super class, or 0 for the root of all classes. -/
  superClass : UInt16
  interfaces : List UInt16
  fields : List Field
  methods : List Method
  attributes : List RawAttribute

/-- Whether a name and a descriptor spell the given ones. -/
def Pool.isMember (pool : Pool) (nameIndex descriptorIndex : UInt16) (name descriptor : String) :
    Bool :=
  pool.utf8Is nameIndex name && pool.utf8Is descriptorIndex descriptor

/-- A name and a descriptor for display. -/
def Pool.signatureText (pool : Pool) (nameIndex descriptorIndex : UInt16) : String :=
  pool.utf8Text nameIndex ++ " " ++ pool.utf8Text descriptorIndex

/-- The body that an attribute holds. -/
def MethodAttribute.body? : MethodAttribute → Option Body
  | .code body => some body
  | .other _ => none

/-- The attributes with a body in place of the first one. -/
def MethodAttribute.setBody (body : Body) : List MethodAttribute → List MethodAttribute
  | [] => [.code body]
  | .code _ :: rest => .code body :: rest
  | .other raw :: rest => .other raw :: setBody body rest

theorem MethodAttribute.findSome?_setBody (body : Body) (attributes : List MethodAttribute) :
    (setBody body attributes).findSome? body? = some body := by
  induction attributes using setBody.induct with
  | case1 => rfl
  | case2 other rest => rfl
  | case3 raw rest ih => exact ih

theorem MethodAttribute.setBody_setBody (body other : Body) (attributes : List MethodAttribute) :
    setBody body (setBody other attributes) = setBody body attributes := by
  induction attributes using setBody.induct with
  | case1 => rfl
  | case2 first rest => rfl
  | case3 raw rest ih => rw [setBody, setBody, setBody, ih]

namespace Method

variable (method : Method)

def isStatic : Bool := Access.has method.access Access.isStatic

/-- The name and the descriptor for display. -/
def signature (pool : Pool) : String := pool.signatureText method.name method.descriptor

/-- The body, if the method has one. -/
def body? : Option Body := method.attributes.findSome? MethodAttribute.body?

/-- The method with another body. -/
def withBody (body : Body) : Method :=
  { method with attributes := MethodAttribute.setBody body method.attributes }

/-- The method without a body. -/
def withoutBody : Method :=
  { method with attributes := method.attributes.filter (·.body?.isNone) }

@[simp] theorem body?_withBody (body : Body) :
    (method.withBody body).body? = some body :=
  MethodAttribute.findSome?_setBody body method.attributes

@[simp] theorem withBody_withBody (body other : Body) :
    (method.withBody other).withBody body = method.withBody body := by
  unfold withBody
  rw [MethodAttribute.setBody_setBody]

end Method

namespace ClassFile

variable (file : ClassFile)

/-- The name of the class. -/
def name? : Option Bytes := file.pool.className file.thisClass

/-- The name of the class for display. -/
def nameText : String := file.pool.classText file.thisClass

/-- The name of the super class. -/
def superName? : Option Bytes := file.pool.className file.superClass

def isInterface : Bool := Access.has file.access Access.isInterface

/-- The index of the method with a name and a descriptor. -/
def methodIndex? (name descriptor : String) : Option Nat :=
  file.methods.findIdx? fun method =>
    file.pool.isMember method.name method.descriptor name descriptor

/-- The index of the field with a name and a descriptor. -/
def fieldIndex? (name descriptor : String) : Option Nat :=
  file.fields.findIdx? fun field =>
    file.pool.isMember field.name field.descriptor name descriptor

/-- Whether the body of some method has to be written anew. -/
def isDirty : Bool :=
  file.methods.any fun method => method.body?.any fun body => body.encoded.isNone

/-- The class with a changed method. -/
def modifyMethod (index : Nat) (change : Method → Method) : ClassFile :=
  { file with methods := file.methods.modify index change }

/-- The class with another body of a method. -/
def setBody (index : Nat) (body : Body) : ClassFile :=
  file.modifyMethod index fun method => method.withBody body

end ClassFile

/-! ### Steps that change a class -/

/-- A step that changes a class.  What it changed before it failed stays. -/
abbrev Changing (α : Type) := ExceptT ClassFault (StateM ClassFile) α

namespace Changing

/-- A step that adds constants. -/
def intern {α : Type} (step : Interning α) : Changing α := fun file =>
  let (result, pool) := step file.pool
  (result, { file with pool := pool })

/-- A body without instructions. -/
def newBody : Changing Body := do
  return Body.new (← intern (Interning.utf8 "Code"))

/-- Appends a method and gives its index. -/
def addMethod (access : UInt16) (name descriptor : String) (body : Option Body) :
    Changing Nat := do
  let name ← intern (Interning.utf8 name)
  let descriptor ← intern (Interning.utf8 descriptor)
  let file ← get
  set { file with
    methods := file.methods ++ [Method.mk access name descriptor (body.toList.map .code)] }
  return file.methods.length

/-- Appends a field and gives its index. -/
def addField (access : UInt16) (name descriptor : String) : Changing Nat := do
  let name ← intern (Interning.utf8 name)
  let descriptor ← intern (Interning.utf8 descriptor)
  let file ← get
  set { file with fields := file.fields ++ [Field.mk access name descriptor []] }
  return file.fields.length

end Changing

end ClassGraft
