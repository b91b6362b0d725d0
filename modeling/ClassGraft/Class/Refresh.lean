import ClassGraft.Class.Basic
import ClassGraft.Class.Refusal
import ClassGraft.Frame.Table

/-!
# Encoding changed code again

`ClassFile.refresh` finds the sizes and the frames of every changed body and encodes it.  A body
that was not changed, or was encoded since, is left alone.  What a step has changed when it fails
stays: constants that were added, sizes, and dead code that was replaced.
-/

namespace ClassGraft

/-- A step that changes a class and may refuse it. -/
abbrev Refreshing (α : Type) := ExceptT Refusal (StateM ClassFile) α

namespace Refreshing

/-- A step that adds constants. -/
def intern {α : Type} (step : Interning α) : Refreshing α := fun file =>
  let (result, pool) := step file.pool
  (result.mapError fun fault => .ofFlaw (.file fault), { file with pool := pool })

/-- What happens in a method. -/
def inMethod {α : Type} (method : String) (step : Refreshing α) : Refreshing α :=
  tryCatch step fun refusal => throw (refusal.inMethod method)

end Refreshing

/-- What frames depend on of a method of a class. -/
def Method.head (method : Method) (pool : Pool) (thisClass : Bytes) :
    Except Refusal MethodHead := do
  let some name := pool.utf8 method.name | throw (.ofFlaw (.badIndex .methodName method.name))
  let some descriptor := pool.utf8 method.descriptor
    | throw (.ofFlaw (.badIndex .methodDescriptor method.descriptor))
  return ⟨thisClass, name, descriptor, method.isStatic⟩

/-- What frames depend on of a method of a class, with empty texts for missing constants. -/
def Method.looseHead (method : Method) (pool : Pool) (thisClass : Bytes) : MethodHead :=
  ⟨thisClass, (pool.utf8 method.name).getD [], (pool.utf8 method.descriptor).getD [],
    method.isStatic⟩

/-- The first version of class files that declare frames. -/
def framesVersion : UInt16 := 50

namespace Body

/-- The table of frames of a body as an attribute, under the name of the old one. -/
def frameAttribute (body : Body) (frames : Array (Option Frame)) (entry : Frame)
    (layout : Layout) : Interning (Option RawAttribute) := do
  let some info ← body.frameTable frames entry layout | return none
  match body.attributes.findSome? BodyAttribute.frames? with
  | some (name, _) => return some ⟨name, info⟩
  | none => return some ⟨← Interning.utf8 "StackMapTable", info⟩

end Body

namespace ClassFile

/-- Finds the sizes and frames of the body of a method, and encodes it. -/
def refreshBody (index : Nat) (head : MethodHead) (hierarchy : Hierarchy) (body : Body) :
    Refreshing Unit := do
  let file ← get
  let analysis ← liftM ((body.analyze head file.pool hierarchy).mapError Refusal.ofObstacle)
  let dead := analysis.dead
  let (body, analysis) :=
    if analysis.hasDeadCode then (body.withoutDead dead, analysis.withDead) else (body, analysis)
  let body := { body with maxStack := analysis.maxStack, maxLocals := analysis.maxLocals }
  modify (·.setBody index body)
  let lift {α : Type} (result : Except ClassFault α) : Refreshing α :=
    liftM (result.mapError fun fault => Refusal.ofFlaw (.file fault))
  let layout ← lift (Layout.ofSteps file.pool body.steps)
  let frames ←
    if file.majorVersion < framesVersion then pure none
    else do
      let entry ← liftM (head.entryFrame.mapError fun fault => Refusal.ofFlaw (.frames fault))
      Refreshing.intern (body.frameAttribute analysis.frames entry layout)
  let encoded ← lift (body.bytes layout frames)
  modify (·.setBody index { body with encoded := some encoded })

/-- Encodes the body of a method again, if it was changed. -/
def refreshMethod (index : Nat) (thisClass : Bytes) (hierarchy : Hierarchy) : Refreshing Unit := do
  let file ← get
  let some method := file.methods[index]? | return
  Refreshing.inMethod (method.signature file.pool) do
    let head ← liftM (method.head file.pool thisClass)
    match method.body? with
    | some body => if body.encoded.isNone then refreshBody index head hierarchy body
    | none => return

/-- Whether the body of a method has to be encoded again. -/
def isStale (file : ClassFile) (index : Nat) : Bool :=
  ((file.methods[index]?).bind Method.body?).any fun body => body.encoded.isNone

/-- Encodes the bodies of the given methods again, as far as they were changed, and gives their
number. -/
def refreshFrom (thisClass : Bytes) (hierarchy : Hierarchy) :
    (indices : List Nat) → (count : Nat) → Refreshing Nat
  | [], count => return count
  | index :: rest, count => do
    if isStale (← get) index then
      refreshMethod index thisClass hierarchy
      refreshFrom thisClass hierarchy rest (count + 1)
    else refreshFrom thisClass hierarchy rest count

/-- Encodes all changed bodies again and gives their number. -/
def refresh (hierarchy : Hierarchy) : Refreshing Nat := do
  let file ← get
  let some thisClass := file.name?
    | throw (.ofFlaw (.badIndex .thisClass file.thisClass))
  refreshFrom thisClass hierarchy (List.range file.methods.length) 0

end ClassFile

end ClassGraft
