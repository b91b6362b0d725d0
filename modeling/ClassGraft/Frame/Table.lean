import ClassGraft.Code.Write
import ClassGraft.Frame.DeadCode
import ClassGraft.Pool.Intern

/-!
# Tables of frames

The contents of a `StackMapTable` attribute.  A frame is written for each instruction that is
reached in another way than from the one before it, as a distance and a change of the frame written
before (`FrameChange.between`), for which the shortest of several forms is chosen.
-/

namespace ClassGraft

/-- The change from a frame with the given locals and an empty stack to one with others; wide
values are one type. -/
def FrameChange.between (previous locals stack : List FrameType) : FrameChange :=
  let removed := previous.length - locals.length
  let added := locals.length - previous.length
  match stack with
  | [] =>
    if locals = previous then .same
    else if 0 < removed ∧ removed ≤ 3 ∧ previous.take locals.length = locals then
      .chop (UInt8.ofNat removed)
    else if 0 < added ∧ added ≤ 3 ∧ locals.take previous.length = previous then
      .append (locals.drop previous.length)
    else .full locals []
  | [type] => if locals = previous then .sameOne type else .full locals [type]
  | _ => .full locals stack

namespace Layout

variable (layout : Layout)

/-- A type as it stands in a table. -/
def typeBytes : FrameType → Interning Bytes
  | .top => return [0]
  | .int => return [1]
  | .float => return [2]
  | .double => return [3]
  | .long => return [4]
  | .null => return [5]
  | .uninitializedThis => return [6]
  | .object name => do return 7 :: Bytes.ofUInt16 (← Interning.classBytes name)
  | .uninitialized mark => do
    let offset ← liftM (layout.offset mark)
    return 8 :: Bytes.ofUInt16 (UInt16.ofNat offset)

/-- Types one after the other. -/
def typesBytes (types : List FrameType) : Interning Bytes := do
  return (← types.mapM layout.typeBytes).flatten

/-- Types with their number in front. -/
def countedTypes (types : List FrameType) : Interning Bytes := do
  let count := types.length
  if 65536 ≤ count then throw (.unencodable (.tooLarge count 16))
  return Bytes.ofUInt16 (UInt16.ofNat count) ++ (← layout.typesBytes types)

/-- A change, as it stands in a table at a distance from the frame before. -/
def changeBytes (distance : Nat) (change : FrameChange) : Interning Bytes := do
  let far := Bytes.ofUInt16 (UInt16.ofNat distance)
  match change with
  | .same =>
    return if distance < 64 then [UInt8.ofNat distance] else 251 :: far
  | .sameOne type =>
    let type ← layout.typeBytes type
    return if distance < 64 then UInt8.ofNat (64 + distance) :: type else 247 :: (far ++ type)
  | .chop count => return (251 - count) :: far
  | .append types =>
    return UInt8.ofNat (251 + types.length) :: far ++ (← layout.typesBytes types)
  | .full locals stack =>
    let locals ← layout.countedTypes locals
    return 255 :: far ++ locals ++ (← layout.countedTypes stack)

/-- The entries of a table for frames in order of their instructions.  The frame before them has the
given locals, and stands at an offset unless it is the one that the method starts with. -/
def frameEntries (frames : List (Nat × Mark × Option Frame)) (previous : List FrameType)
    (before : Option Nat) : Interning (List Bytes) := do
  match frames with
  | [] => return []
  | (index, mark, frame) :: rest =>
    let some frame := frame | throw (.unencodable (.noFrame index))
    let offset ← liftM (layout.offset mark)
    let distance := match before with
      | none => offset
      | some before => offset - before - 1
    let locals := frame.listedLocals
    let entry ← layout.changeBytes distance
      (FrameChange.between previous locals frame.listedStack)
    return entry :: (← frameEntries rest locals (some offset))

end Layout

namespace Body

/-- The indices of the instructions that need a frame: targets of jumps, entries of handlers, what
follows an instruction that never goes on, and the landings of jumps with a bypass. -/
def needsFrame (body : Body) (landings : List Mark) : List Nat :=
  let positions := body.positions
  let count := body.steps.length
  let after := body.steps.zipIdx.filterMap fun (step, index) =>
    if step.instruction.fallsThrough then none else some (index + 1)
  let targets := (body.steps.flatMap fun step => step.instruction.targets)
    ++ body.handlers.map (·.entry) ++ landings
  let needed := after ++ targets.filterMap (positions[·]?)
  let flags := needed.foldl (fun flags index => flags.setIfInBounds index true)
    (Array.replicate count false)
  (List.range count).filter fun index => flags.getD index false

/-- The contents of the table of frames of a body in a method that starts with the given frame; none
if no frame is needed. -/
def frameTable (body : Body) (frames : Array (Option Frame)) (entry : Frame) (layout : Layout) :
    Interning (Option Bytes) := do
  let needed := body.needsFrame layout.landings
  if needed.isEmpty then return none
  let count := needed.length
  if 65536 ≤ count then throw (.unencodable (.tooLarge count 16))
  let steps := body.steps.toArray
  let rows := needed.filterMap fun index =>
    (steps[index]?).map fun step => (index, step.mark, (frames[index]?).join)
  let entries ← layout.frameEntries rows entry.listedLocals none
  return some (Bytes.ofUInt16 (UInt16.ofNat count) ++ entries.flatten)

end Body

end ClassGraft
