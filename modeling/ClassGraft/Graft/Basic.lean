import ClassGraft.Graft.Report
import ClassGraft.Template.Steps

/-!
# Classes under patches

A class while patches are applied to it, with what they did to each method.  An edit that goes
wrong gives a fault, and the patch it belongs to is taken back as a whole.
-/

namespace ClassGraft

/-- What patches did to a method so far. -/
structure MethodHistory where
  /-- The patch that gave the method its body. -/
  replacedBy : Option String
  /-- The patches that changed the body, in order. -/
  editedBy : List String
  /-- The last instruction that was inserted at the start. -/
  entryEnd : Option Mark
  /-- The last instruction that was inserted after a call. -/
  afterCall : Std.HashMap Mark Mark

namespace MethodHistory

/-- No patch did anything. -/
def untouched : MethodHistory := ⟨none, [], none, ∅⟩

/-- A patch gave the method its body, so all that was done before is gone. -/
def replaced (patch : String) : MethodHistory := ⟨some patch, [], none, ∅⟩

/-- The patches that had a part in the body. -/
def changedBy (history : MethodHistory) : List String :=
  history.replacedBy.toList ++ history.editedBy

/-- The history after a patch changed the body. -/
def edited (patch : String) (history : MethodHistory) : MethodHistory :=
  { history with editedBy := history.editedBy ++ [patch] }

end MethodHistory

/-- A class under patches. -/
structure Graft where
  file : ClassFile
  /-- The histories of the methods that were touched, by index. -/
  histories : Std.HashMap Nat MethodHistory

namespace Graft

/-- The class before any patch. -/
def start (file : ClassFile) : Graft := ⟨file, ∅⟩

/-- What patches did to a method. -/
def history (graft : Graft) (index : Nat) : MethodHistory :=
  graft.histories.getD index .untouched

/-- The body of a method. -/
def body? (graft : Graft) (index : Nat) : Option Body :=
  (graft.file.methods[index]?).bind Method.body?

end Graft

/-- A step of an edit. -/
abbrev Grafting (α : Type) := ExceptT PatchFault (StateM Graft) α

namespace Grafting

/-- A step that changes only the class. -/
def change {α : Type} (step : Changing α) : Grafting α := fun graft =>
  let (result, file) := step.run graft.file
  (result.mapError .file, { graft with file := file })

/-- A step that adds constants. -/
def intern {α : Type} (step : Interning α) : Grafting α := change (Changing.intern step)

/-- The steps of a template for a body, and the body that gave them their marks. -/
def useTemplate (template : Template) (body : Body) : Grafting (List Step × Body) :=
  fun graft =>
    let (result, body, pool) := template.stepsIn body graft.file.pool
    ((result.map (·, body)).mapError .ofTemplate,
      { graft with file := { graft.file with pool := pool } })

/-- Sets the body of a method. -/
def setBody (index : Nat) (body : Body) : Grafting Unit :=
  modify fun graft => { graft with file := graft.file.setBody index body }

/-- Sets the history of a method. -/
def setHistory (index : Nat) (history : MethodHistory) : Grafting Unit :=
  modify fun graft => { graft with histories := graft.histories.insert index history }

end Grafting

end ClassGraft

/-!
## Finding places in code

The instructions that anchors and redirections of calls apply to.  Both see only instructions that
were there from the start.
-/

namespace ClassGraft

/-- Whether the instruction calls a method. -/
def Instruction.calls {τ : Type} (instruction : Instruction τ) (pool : Pool)
    (method : MemberName) : Bool :=
  match instruction with
  | .invoke _ index | .invokeInterface index _ =>
    (pool.member index).any (·.is method.owner method.name method.descriptor)
  | _ => false

namespace Body

variable (body : Body)

/-- The instructions that were there from the start and are still there. -/
def initialSteps : List Step := body.steps.filter fun step => body.isInitial step.mark

/-- The marks of the calls of a method that were there from the start. -/
def callsOf (pool : Pool) (method : MemberName) : List Mark :=
  (body.initialSteps.filter (·.instruction.calls pool method)).map (·.mark)

/-- The marks of the calls that a match selects. -/
def matchingCalls (pool : Pool) (call : CallMatch) : List Mark :=
  let found := body.callsOf pool call.method
  match call.ordinal with
  | some ordinal => found[ordinal]?.toList
  | none => found

/-- The marks of the instructions that an anchor applies to. -/
def sites (pool : Pool) : Anchor → List Mark
  | .methodEntry => (body.steps.head?.map (·.mark)).toList
  | .beforeReturn => (body.initialSteps.filter (·.instruction.isReturn)).map (·.mark)
  | .beforeCall call => body.matchingCalls pool call
  | .afterCall call => body.matchingCalls pool call
  | .offset offset => ((body.initialAtOffset? offset).filter body.has).toList
  | .index index => ((body.initialAtIndex? index).filter body.has).toList

end Body

end ClassGraft
