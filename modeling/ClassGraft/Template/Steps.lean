import Std.Data.HashMap
import ClassGraft.Code.Body
import ClassGraft.Pool.Intern
import ClassGraft.Template.Basic
import ClassGraft.Template.Fault

/-!
# Using code templates

`Template.steps` turns a template into instructions with fresh marks and adds the constants that it
uses to a pool, so a template can be used at several places.  A jump to a label that the template
does not define gets a mark that no instruction ever has.
-/

namespace ClassGraft

/-- Where fresh marks and constants come from. -/
structure Supply where
  nextMark : Nat
  pool : Pool

/-- A step that uses marks and constants up; what it used before it failed stays used. -/
abbrev Supplied (α : Type) := ExceptT TemplateFault (StateM Supply) α

namespace Supplied

/-- A mark that was never given out before. -/
def mark : Supplied Mark := fun supply =>
  (.ok ⟨supply.nextMark⟩, { supply with nextMark := supply.nextMark + 1 })

/-- A step that adds constants. -/
def intern {α : Type} (step : Interning α) : Supplied α := fun ⟨nextMark, pool⟩ =>
  let (result, pool) := step pool
  (result.mapError .file, ⟨nextMark, pool⟩)

end Supplied

/-- The number that an interface call states for its arguments: their slots and the receiver. -/
def interfaceCount (descriptor : String) : Except TemplateFault UInt8 :=
  match Descriptor.method? (Bytes.ofText descriptor) with
  | none => .error (.badDescriptor descriptor)
  | some type =>
    let count := type.argumentsSize + 1
    if count < 256 then .ok count.toUInt8 else .error (.tooManyArguments descriptor)

/-- The call of the method at an index. -/
def callInstruction (op : Opcode) (index : UInt16) (descriptor : String) :
    Except TemplateFault (Instruction Mark) :=
  if op == Opcode.invokeInterface then
    (interfaceCount descriptor).map fun count => .invokeInterface index count
  else .ok (.invoke op index)

/-- The index of a constant. -/
def Constant.intern : Constant → Interning UInt16
  | int value => Interning.entry (.integer value)
  | float bits => Interning.entry (.float bits)
  | long value => Interning.entry (.long value)
  | double bits => Interning.entry (.double bits)
  | string value => Interning.string value
  | classRef name => Interning.classRef name

namespace Template

/-- The marks of labels. -/
abbrev Labels := Std.HashMap String Mark

/-- The marks that labels get when the next instruction gets the given mark; `pending` has the
labels since the last instruction, the last one first.  Gives also the labels after the last
instruction, in order. -/
def labelMarks : (next : Nat) → (pending : List String) → Labels → Template →
    Labels × List String
  | _, pending, labels, [] => (labels, pending.reverse)
  | next, pending, labels, line :: rest =>
    match line.label? with
    | some name => labelMarks next (name :: pending) labels rest
    | none =>
      let labels := pending.reverse.foldl (fun labels name => labels.insert name ⟨next⟩) labels
      labelMarks (next + 1) [] labels rest

/-- The mark of a label, a new one for each that is not defined. -/
def target (labels : Labels) (name : String) : Supplied (Mark × Labels) := do
  match labels[name]? with
  | some mark => return (mark, labels)
  | none =>
    let mark ← Supplied.mark
    return (mark, labels.insert name mark)

/-- The instruction of a line; a label has none. -/
def instruction (labels : Labels) : Line → Supplied (Option (Instruction Mark) × Labels)
  | .label _ => return (none, labels)
  | .plain op => return (some (.plain op), labels)
  | .bytePush value => return (some (.bytePush value), labels)
  | .shortPush value => return (some (.shortPush value), labels)
  | .constant value => do return (some (.constant (← Supplied.intern value.intern)), labels)
  | .access op slot => return (some (.access op slot), labels)
  | .increment slot delta => return (some (.increment slot delta), labels)
  | .jump op name => do
    let (mark, labels) ← target labels name
    return (some (.jump op mark), labels)
  | .field op ⟨owner, name, descriptor⟩ => do
    let index ← Supplied.intern (Interning.member .field owner name descriptor)
    return (some (.field op index), labels)
  | .invoke op ⟨owner, name, descriptor⟩ interface => do
    let index ← Supplied.intern (Interning.method owner name descriptor interface)
    return (some (← liftM (callInstruction op index descriptor)), labels)
  | .classOp op name => do
    return (some (.classOp op (← Supplied.intern (Interning.classRef name))), labels)
  | .newArray element => return (some (.newArray element), labels)
  | .newMultiArray name dimensions => do
    let index ← Supplied.intern (Interning.classRef name)
    return (some (.newMultiArray index dimensions), labels)

/-- The steps of lines, the first of which gets the given mark; those before it are in `found`, the
last one first. -/
def stepsFrom : (mark : Nat) → Labels → (found : List Step) → Template → Supplied (List Step)
  | _, _, found, [] => return found.reverse
  | mark, labels, found, line :: rest => do
    match ← instruction labels line with
    | (none, labels) => stepsFrom mark labels found rest
    | (some instruction, labels) =>
      stepsFrom (mark + 1) labels (⟨⟨mark⟩, instruction⟩ :: found) rest

/-- The template as steps.  The instructions get their marks before anything else is done. -/
def steps (template : Template) : Supplied (List Step) := do
  let supply ← get
  let first := supply.nextMark
  let count := (template.filter (·.label?.isNone)).length
  set { supply with nextMark := first + count }
  match labelMarks first [] ∅ template with
  | (_, label :: _) => throw (.danglingLabel label)
  | (labels, []) => stepsFrom first labels [] template

/-- The template as steps of a body, which gives out their marks. -/
def stepsIn (template : Template) (body : Body) (pool : Pool) :
    Except TemplateFault (List Step) × Body × Pool :=
  let (result, supply) := template.steps.run ⟨body.nextMark, pool⟩
  (result, { body with nextMark := supply.nextMark }, supply.pool)

end Template

end ClassGraft
