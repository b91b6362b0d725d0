import ClassGraft.Graft.Basic

/-!
# Applying edits

What each kind of edit does to a class.  Where the edits of several patches meet in one method, the
first one that replaces the body wins: later ones are dropped, and so is what would be inserted or
redirected in that body.  One that replaces a body after insertions discards those.
-/

namespace ClassGraft

/-- What came of an edit that did not fail. -/
inductive Note where
  | applied (deed : Deed)
  | conflict (conflict : Conflict)
  deriving DecidableEq, Repr

/-- The event of a note. -/
def Note.event : Note → Event
  | applied deed => .applied deed
  | conflict cause => .conflict cause

namespace Grafting

/-- The index of the method that a patch names, and the method. -/
def target (patch : Patch) : Grafting (Nat × Signature) := do
  let some method := patch.method | throw (.invalid (.noMethod patch.id))
  let file := (← get).file
  match file.methodIndex? method.name method.descriptor with
  | some index => return (index, method)
  | none => throw (.notFound (.method method file.nameText))

/-! ### Members -/

/-- The body of an added method; it counts as there from the start, so that other patches can find
places in it. -/
def bodyOf (template : Template) : Grafting Body := do
  let body ← change Changing.newBody
  let (steps, body) ← useTemplate template body
  return (body.replace steps []).settle

/-- Puts a method in place of one that is there, and tells what became of the edits of that one. -/
def overwriteMethod (patch : Patch) (edit : Edit) (index : Nat) (access : UInt16)
    (body : Option Body) : Grafting Note := do
  let graft ← get
  let overwrite (method : Method) : Method :=
    let bare := { method.withoutBody with access := access }
    match body with
    | some body => bare.withBody body
    | none => bare
  set { graft with file := graft.file.modifyMethod index overwrite }
  setHistory index (.replaced patch.id)
  match (graft.history index).changedBy with
  | [] => return .applied (.overwroteMethod edit)
  | changedBy => return .conflict (.overwrites edit changedBy)

/-- Adds a method. -/
def addMethod (patch : Patch) (edit : Edit) (access : List Modifier) (method : Signature)
    (code : Option Template) (overwrite : Bool) : Grafting Note := do
  let file := (← get).file
  let existing := file.methodIndex? method.name method.descriptor
  if existing.isSome && !overwrite then throw (.duplicateMember file.nameText method)
  let body ← match code with
    | some template => some <$> bodyOf template
    | none => pure none
  let flags := Modifier.flags access
  match existing with
  | some index => overwriteMethod patch edit index flags body
  | none =>
    let _ ← change (Changing.addMethod flags method.name method.descriptor body)
    return .applied (.done edit)

/-- Adds a field. -/
def addField (edit : Edit) (access : List Modifier) (field : Signature) (overwrite : Bool) :
    Grafting Note := do
  let graft ← get
  let file := graft.file
  let flags := Modifier.flags access
  match file.fieldIndex? field.name field.descriptor with
  | some index =>
    if !overwrite then throw (.duplicateMember file.nameText field)
    let fields := file.fields.modify index fun field => { field with access := flags }
    set { graft with file := { file with fields := fields } }
    return .applied (.overwroteField edit)
  | none =>
    let _ ← change (Changing.addField flags field.name field.descriptor)
    return .applied (.done edit)

/-! ### Bodies -/

/-- The body of a method; one that has none gets an empty one, and is no longer abstract or
native. -/
def bodyOrNew (index : Nat) : Grafting Body := do
  match (← get).body? index with
  | some body => return body
  | none =>
    let body ← change Changing.newBody
    let bodyless := Access.isAbstract ||| Access.isNative
    modify fun graft =>
      let file := graft.file.modifyMethod index fun method =>
        { method with access := method.access &&& ~~~bodyless }
      { graft with file := file }
    return body

/-- Replaces the body of the method of the patch. -/
def replaceBody (patch : Patch) (edit : Edit) (code : Template) : Grafting Note := do
  let (index, method) ← target patch
  let history := (← get).history index
  if let some winner := history.replacedBy then
    return .conflict (.replacedBefore edit method winner)
  setHistory index (.replaced patch.id)
  let body ← bodyOrNew index
  let (steps, body) ← useTemplate code body
  setBody index (body.replace steps [])
  match history.editedBy with
  | [] => return .applied (.replaced edit method)
  | changedBy => return .conflict (.discards edit method changedBy)

/-! ### Insertions -/

/-- Inserts steps where an anchor applies to an instruction.  What is inserted at the start of a
method, or after a call, goes after what was inserted there before. -/
def insertSteps (anchor : Anchor) (site : Mark) (steps : List Step) (body : Body)
    (history : MethodHistory) : Body × MethodHistory :=
  let last := steps.getLast?.map (·.mark)
  match anchor with
  | .methodEntry =>
    let inserted := match history.entryEnd with
      | some entryEnd => body.insertAfter entryEnd steps
      | none => body.insertBefore site steps false
    (inserted.getD body, { history with entryEnd := last })
  | .afterCall _ =>
    let inserted := body.insertAfter (history.afterCall.getD site site) steps
    let afterCall := match last with
      | some last => history.afterCall.insert site last
      | none => history.afterCall
    (inserted.getD body, { history with afterCall := afterCall })
  | _ => ((body.insertBefore site steps true).getD body, history)

/-- Inserts code at each of the sites of an anchor. -/
def insertAtSites (anchor : Anchor) (code : Template) :
    (sites : List Mark) → Body → MethodHistory → Grafting (Body × MethodHistory)
  | [], body, history => return (body, history)
  | site :: rest, body, history => do
    let (steps, body) ← useTemplate code body
    let (body, history) := insertSteps anchor site steps body history
    insertAtSites anchor code rest body history

/-- Inserts code into the method of the patch. -/
def insertAt (patch : Patch) (edit : Edit) (anchor : Anchor) (code : Template) :
    Grafting Note := do
  let (index, method) ← target patch
  let graft ← get
  let history := graft.history index
  if let some winner := history.replacedBy then return .conflict (.dropped edit method winner)
  let some body := graft.body? index | throw (.notFound (.code anchor method))
  let sites := body.sites graft.file.pool anchor
  if sites.isEmpty then throw (.notFound (.anchor anchor method))
  let (body, history) ← insertAtSites anchor code sites body history
  setBody index body
  setHistory index (history.edited patch.id)
  return .applied (.inserted edit method sites.length)

/-! ### Redirections -/

/-- The words that a call takes from the stack, and those that it puts there. -/
def stackEffect? (descriptor : String) (kind : CallKind) : Option (UInt16 × Nat) :=
  (Descriptor.method? (Bytes.ofText descriptor)).map fun type =>
    (type.argumentsSize + (if kind.hasReceiver then 1 else 0), type.resultSize)

/-- Whether the instruction refers to a method of an interface. -/
def isOfInterface (pool : Pool) (instruction : Instruction Mark) : Bool :=
  (instruction.constantIndex?.bind pool.member).any (·.kind == .interfaceMethod)

/-- The call of the replacement in place of an instruction, the one at a position. -/
def redirectStep (edit : Edit) (callee replacement : MemberName) (kind : Option CallKind)
    (position : Nat) (instruction : Instruction Mark) : Grafting (Instruction Mark) := do
  let some oldKind := CallKind.ofOpcode? instruction.opcode
    | throw (.invalid (.notCall edit position))
  let newKind := kind.getD oldKind
  if stackEffect? callee.descriptor oldKind ≠ stackEffect? replacement.descriptor newKind then
    throw (.invalid (.unequalCalls edit replacement newKind))
  let pool := (← get).file.pool
  let interface := match kind with
    | some kind => kind == .interface
    | none => isOfInterface pool instruction
  let ⟨owner, name, descriptor⟩ := replacement
  let index ← intern (Interning.method owner name descriptor interface)
  liftM ((callInstruction newKind.opcode index descriptor).mapError PatchFault.ofTemplate)

/-- Redirects the calls among steps; with each step goes whether it is such a call. -/
def redirectSteps (edit : Edit) (callee replacement : MemberName) (kind : Option CallKind) :
    (position : Nat) → (done : List Step) → List (Step × Bool) → Grafting (List Step)
  | _, done, [] => return done.reverse
  | position, done, (step, isCall) :: rest => do
    let instruction ←
      if isCall then redirectStep edit callee replacement kind position step.instruction
      else pure step.instruction
    redirectSteps edit callee replacement kind (position + 1) (⟨step.mark, instruction⟩ :: done)
      rest

/-- Redirects the calls in the body of a method, and gives their number. -/
def redirectIn (patch : Patch) (edit : Edit) (callee replacement : MemberName)
    (kind : Option CallKind) (index : Nat) : Grafting Nat := do
  let graft ← get
  let some body := graft.body? index | return 0
  let pool := graft.file.pool
  let marked := body.steps.map fun step =>
    (step, body.isInitial step.mark && step.instruction.calls pool callee)
  let count := marked.countP (·.2)
  if count = 0 then return 0
  let steps ← redirectSteps edit callee replacement kind 0 [] marked
  setBody index { body.touch with steps := steps }
  setHistory index ((graft.history index).edited patch.id)
  return count

/-- Redirects the calls in several methods, and gives their number. -/
def redirectInAll (patch : Patch) (edit : Edit) (callee replacement : MemberName)
    (kind : Option CallKind) : (indices : List Nat) → (count : Nat) → Grafting Nat
  | [], count => return count
  | index :: rest, count => do
    let more ← redirectIn patch edit callee replacement kind index
    redirectInAll patch edit callee replacement kind rest (count + more)

/-- Redirects calls in the method of the patch, or in all methods whose body was not replaced. -/
def redirectCall (patch : Patch) (edit : Edit) (callee replacement : MemberName)
    (kind : Option CallKind) (required : Bool) : Grafting Note := do
  let redirect (indices : List Nat) (scope : Scope) : Grafting Note := do
    let count ← redirectInAll patch edit callee replacement kind indices 0
    if count = 0 && required then throw (.notFound (.call callee scope))
    return .applied (.redirected edit scope count)
  match patch.method with
  | some _ =>
    let (index, method) ← target patch
    match ((← get).history index).replacedBy with
    | some winner => return .conflict (.dropped edit method winner)
    | none => redirect [index] (.method method)
  | none =>
    let graft ← get
    let indices := (List.range graft.file.methods.length).filter fun index =>
      (graft.history index).replacedBy.isNone
    redirect indices (.wholeClass graft.file.nameText)

/-! ### Any edit -/

/-- Applies an edit of a patch. -/
def apply (patch : Patch) (edit : Edit) : Grafting Note :=
  match edit with
  | .addMethod access method code overwrite => addMethod patch edit access method code overwrite
  | .addField access field overwrite => addField edit access field overwrite
  | .replaceBody code => replaceBody patch edit code
  | .insertAt anchor code => insertAt patch edit anchor code
  | .redirectCall callee replacement kind required =>
    redirectCall patch edit callee replacement kind required

end Grafting

end ClassGraft

/-!
## Applying patches

Patches are applied one after another, in the order in which they are given.  A patch is applied as
a whole, or it is reported as skipped and the class is as it was before.
-/

namespace ClassGraft

namespace Graft

/-- Applies a patch, and tells what came of it. -/
def applyPatch (graft : Graft) (patch : Patch) : Graft × List ReportEntry :=
  match (patch.edits.mapM (Grafting.apply patch)).run graft with
  | (.ok notes, graft) => (graft, notes.map fun note => ⟨some patch.id, note.event⟩)
  | (.error fault, _) => (graft, [⟨some patch.id, .skipped fault⟩])

/-- Applies patches, and tells what came of them. -/
def applyPatches (graft : Graft) : List Patch → Graft × List ReportEntry
  | [] => (graft, [])
  | patch :: rest =>
    let (graft, entries) := graft.applyPatch patch
    let (graft, more) := graft.applyPatches rest
    (graft, entries ++ more)

end Graft

/-- The class with patches applied, and what came of them. -/
def ClassFile.applyPatches (file : ClassFile) (patches : List Patch) :
    ClassFile × List ReportEntry :=
  let (graft, entries) := (Graft.start file).applyPatches patches
  (graft.file, entries)

end ClassGraft
