import Std.Data.HashSet
import ClassGraft.Class.Refresh

/-!
# Checking a class before it is written

`ClassFile.verify` checks that what refers to the constant pool refers to constants of the right
kind, that changed bodies keep within their sizes and jump to instructions of their own, and that no
two fields and no two methods have the same name and descriptor.
-/

namespace ClassGraft

/-! ### References to constants -/

/-- Whether an instruction can refer to a constant of a kind. -/
def Instruction.canRefer (instruction : Instruction Mark) (kind : Pool.Kind) : Bool :=
  match instruction with
  | .constant _ =>
    [.integer, .float, .long, .double, .string, .classRef, .methodHandle, .methodType,
      .dynamic].contains kind
  | .field _ _ => kind == .field
  | .invoke op _ => kind == .method || (op != Opcode.invokeVirtual && kind == .interfaceMethod)
  | .invokeInterface _ _ => kind == .interfaceMethod
  | .invokeDynamic _ => kind == .invokeDynamic
  | .classOp _ _ | .newMultiArray _ _ => kind == .classRef
  | _ => true

/-- What is wrong with the constant that an instruction refers to. -/
def Instruction.referenceFlaw? (pool : Pool) (instruction : Instruction Mark) : Option Flaw := do
  let index ← instruction.constantIndex?
  match pool.get index with
  | none => some (.noConstant index)
  | some entry =>
    if instruction.canRefer entry.kind then none
    else some (.badOperand instruction.opcode entry.kind index)

namespace Body

/-- What is wrong with the constants that a body refers to. -/
def referenceRefusal? (pool : Pool) (body : Body) : Option Refusal :=
  (body.steps.zipIdx.findSome? fun (step, index) =>
      (step.instruction.referenceFlaw? pool).map (Refusal.atStep index))
    <|> body.handlers.findSome? fun handler =>
      if handler.catchType = 0 ∨ pool.isClass handler.catchType then none
      else some (.ofFlaw (.badCatchType handler.catchType))

end Body

/-- What is wrong with the name and descriptor of a field. -/
def Field.referenceRefusal? (pool : Pool) (field : Field) : Option Refusal :=
  match pool.utf8 field.descriptor with
  | none => some (.ofFlaw (.badIndex .fieldDescriptor field.descriptor))
  | some descriptor =>
    if (pool.utf8 field.name).isNone ∨ (Descriptor.field? descriptor).isNone then
      some (.ofFlaw (.badField (pool.signatureText field.name field.descriptor)))
    else none

/-- What is wrong with the name, the descriptor and the constants of a method. -/
def Method.referenceRefusal? (pool : Pool) (method : Method) : Option Refusal :=
  let refusal? : Option Refusal :=
    match pool.utf8 method.descriptor with
    | none => some (.ofFlaw (.badIndex .methodDescriptor method.descriptor))
    | some descriptor =>
      if (pool.utf8 method.name).isNone ∨ (Descriptor.method? descriptor).isNone then
        some (.ofFlaw .badMethod)
      else method.body?.bind (Body.referenceRefusal? pool)
  refusal?.map (Refusal.inMethod (method.signature pool))

namespace ClassFile

/-- What is wrong with the classes that a class refers to. -/
def classFlaw? (file : ClassFile) : Option Flaw :=
  let pool := file.pool
  if !pool.isClass file.thisClass then some (.badIndex .thisClass file.thisClass)
  else if file.superClass ≠ 0 ∧ !pool.isClass file.superClass then
    some (.badIndex .superClass file.superClass)
  else (file.interfaces.find? fun index => !pool.isClass index).map (.badIndex .interface)

/-- What is wrong with the references of a class and its members to constants. -/
def referenceRefusal? (file : ClassFile) : Option Refusal :=
  file.classFlaw?.map .ofFlaw
    <|> file.fields.findSome? (Field.referenceRefusal? file.pool)
    <|> file.methods.findSome? (Method.referenceRefusal? file.pool)

end ClassFile

/-! ### Bodies -/

/-- What is wrong with the body of a method, if it was changed. -/
def Method.bodyRefusal? (pool : Pool) (thisClass : Bytes) (hierarchy : Hierarchy)
    (method : Method) : Option Refusal := do
  let body ← method.body?
  if !body.modified then none
  else
    let head := method.looseHead pool thisClass
    let refusal? : Option Refusal :=
      match body.analyze head pool hierarchy with
      | .error obstacle => some (.ofObstacle obstacle)
      | .ok analysis =>
        if body.maxStack < analysis.maxStack then
          some (.ofFlaw (.smallStack analysis.maxStack body.maxStack))
        else if body.maxLocals < analysis.maxLocals then
          some (.ofFlaw (.fewLocals analysis.maxLocals body.maxLocals))
        else none
    refusal?.map (Refusal.inMethod (method.signature pool))

/-! ### Members -/

/-- The first item whose key an earlier one has. -/
def firstRepeated? {α κ : Type} [BEq κ] [Hashable κ] (key : α → κ) (items : List α) : Option α :=
  go ∅ items where
  /-- The first item whose key is known or that of an earlier one. -/
  go (known : Std.HashSet κ) : List α → Option α
    | [] => none
    | item :: rest =>
      if known.contains (key item) then some item else go (known.insert (key item)) rest

namespace ClassFile

/-- Two members with the same name and descriptor. -/
def duplicateRefusal? (file : ClassFile) : Option Refusal :=
  let pool := file.pool
  let field? := (firstRepeated? (fun field : Field =>
      (pool.utf8 field.name, pool.utf8 field.descriptor)) file.fields).map fun field =>
    Refusal.ofFlaw (.duplicateField (pool.signatureText field.name field.descriptor))
  let method? := (firstRepeated? (fun method : Method =>
      (pool.utf8 method.name, pool.utf8 method.descriptor)) file.methods).map fun method =>
    (Refusal.ofFlaw .duplicateMethod).inMethod (method.signature pool)
  field? <|> method?

/-- Why the class is refused, if it is. -/
def refusal? (file : ClassFile) (hierarchy : Hierarchy) : Option Refusal :=
  file.referenceRefusal? <|>
    match file.name? with
    | none => some (.ofFlaw .noClassName)
    | some thisClass =>
      file.methods.findSome? (Method.bodyRefusal? file.pool thisClass hierarchy)
        <|> file.duplicateRefusal?

/-- Checks the class. -/
def verify (file : ClassFile) (hierarchy : Hierarchy) : Except Refusal Unit :=
  match file.refusal? hierarchy with
  | some refusal => .error refusal
  | none => .ok ()

end ClassFile

end ClassGraft
