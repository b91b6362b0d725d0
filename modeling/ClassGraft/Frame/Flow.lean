import ClassGraft.Frame.Basic
import ClassGraft.Frame.Execution

/-!
# The flow of types through code

`Body.analyze` finds the frame before each instruction that can be reached, and from them the sizes
of the stack and of the locals.  Frames flow along jumps, to the next instruction, and to exception
handlers, where both the locals before and the locals after an instruction arrive.  Where several
frames arrive they are merged; an instruction whose frame changed is looked at again, the one that
changed last first.

Merging only moves the types of a slot upwards, from a class to its super classes and from there to
what cannot be used, so frames change finitely often.  `Flow.budget` bounds how often.
-/

namespace ClassGraft

/-- A range of instructions by index, and where exceptions of a class thrown there go on. -/
structure HandlerRange where
  start : Nat
  stop : Nat
  entry : Nat
  caught : Bytes
  deriving DecidableEq, Repr

/-- The frames of a body, and the sizes that it needs. -/
structure Analysis where
  /-- The frame before each instruction, or nothing if it cannot be reached. -/
  frames : Array (Option Frame)
  maxStack : UInt16
  maxLocals : UInt16

/-- Whether some instruction cannot be reached. -/
def Analysis.hasDeadCode (analysis : Analysis) : Bool := analysis.frames.any (·.isNone)

/-- What all exceptions are objects of. -/
def throwableName : Bytes := Bytes.ofAscii "java/lang/Throwable"

/-! ### Setting the scene -/

namespace Body

/-- The slots of locals that an instruction needs. -/
def slotsOf : Instruction Mark → Nat
  | .access op slot =>
    if op == Opcode.lload || op == Opcode.dload || op == Opcode.lstore || op == Opcode.dstore then
      slot.toNat + 2
    else slot.toNat + 1
  | .increment slot _ => slot.toNat + 1
  | _ => 0

/-- The index of each instruction. -/
def positions (body : Body) : Std.HashMap Mark Nat :=
  body.steps.zipIdx.foldl (fun found (step, index) => found.insert step.mark index) ∅

/-- The exception handlers of a body with indices in place of marks. -/
def handlerRanges (body : Body) (scene : Scene) : Except Obstacle (List HandlerRange) :=
  body.handlers.mapM fun handler => do
    let find (mark : Mark) := (scene.position mark).mapError Obstacle.anywhere
    let start ← find handler.start
    let stop ← match handler.stop with
      | .at mark => find mark
      | .finish => pure scene.steps.size
    let entry ← find handler.entry
    if handler.catchType = 0 then return ⟨start, stop, entry, throwableName⟩
    match scene.pool.className handler.catchType with
    | some name => return ⟨start, stop, entry, name⟩
    | none => throw (Obstacle.atStep entry (.badCatchType handler.catchType))

end Body

/-! ### The work list -/

/-- A flow under way. -/
structure Flow where
  frames : Array (Option Frame)
  /-- The instructions that are to be looked at, the next one first. -/
  pending : List Nat
  /-- Whether an instruction is pending. -/
  isPending : Array Bool
  /-- The most words seen on the stack. -/
  height : Nat

/-- What a flow goes along. -/
structure Course where
  scene : Scene
  handlers : List HandlerRange
  /-- The frames that the class declares, by index. -/
  declared : Std.HashMap Nat Frame

namespace Flow

/-- The flow in which nothing was reached. -/
def start (size : Nat) : Flow :=
  ⟨Array.replicate size none, [], Array.replicate size false, 0⟩

/-- Sets the frame of an instruction, and puts it on the list unless it is there. -/
def set (flow : Flow) (target : Nat) (frame : Frame) : Flow :=
  let ⟨frames, pending, isPending, height⟩ := flow
  let frames := frames.setIfInBounds target (some frame)
  if isPending.getD target false then ⟨frames, pending, isPending, height⟩
  else ⟨frames, target :: pending, isPending.setIfInBounds target true, height⟩

/-- Lets a frame arrive at an instruction: it must fit what is declared there, and is merged with
the frame that was there. -/
def arrive (course : Course) (target : Nat) (frame : Frame) (flow : Flow) :
    Except FrameFault Flow := do
  let hierarchy := course.scene.hierarchy
  let frame ← match course.declared[target]? with
    | some declared => Frame.fit hierarchy declared frame
    | none => pure frame
  match (flow.frames[target]?).join with
  | none => return flow.set target frame
  | some old =>
    let merged ← Frame.merge hierarchy old frame
    if merged = old then return flow else return flow.set target merged

/-- Lets a frame flow from one instruction to another. -/
def send (course : Course) (origin target : Nat) (frame : Frame) (flow : Flow) :
    Except Obstacle Flow :=
  (flow.arrive course target frame).mapError fun fault => .atStep origin (.flowingTo target fault)

/-- Lets the locals before and after an instruction flow to the handlers of its exceptions. -/
def throwFrom (course : Course) (origin : Nat) (before after : Frame) :
    List HandlerRange → Flow → Except Obstacle Flow
  | [], flow => .ok flow
  | handler :: rest, flow => do
    if handler.start ≤ origin ∧ origin < handler.stop then
      let flow := { flow with height := max flow.height 1 }
      let flow ← flow.send course origin handler.entry (Frame.catching before.locals handler.caught)
      let flow ← flow.send course origin handler.entry (Frame.catching after.locals handler.caught)
      throwFrom course origin before after rest flow
    else throwFrom course origin before after rest flow

/-- Lets a frame flow to the targets of an instruction. -/
def jumpFrom (course : Course) (origin : Nat) (after : Frame) :
    List Mark → Flow → Except Obstacle Flow
  | [], flow => .ok flow
  | target :: rest, flow => do
    let target ← (course.scene.position target).mapError (Obstacle.atStep origin)
    jumpFrom course origin after rest (← flow.send course origin target after)

/-- Lets frames flow from an instruction, which is executed on its frame. -/
def visit (course : Course) (origin : Nat) (step : Step) (before : Frame) (flow : Flow) :
    Except Obstacle Flow := do
  let after ← (course.scene.execute step before).mapError (Obstacle.atStep origin)
  let flow := { flow with
    height := max (max flow.height before.stack.length) after.stack.length }
  let flow ← flow.throwFrom course origin before after course.handlers
  let flow ← flow.jumpFrom course origin after step.instruction.targets
  if step.instruction.fallsThrough then
    if origin + 1 = course.scene.steps.size then throw (.atStep origin .fallsOff)
    flow.send course origin (origin + 1) after
  else return flow

/-- Looks at pending instructions until there are none, at most as often as the fuel allows. -/
def settle (course : Course) : (fuel : Nat) → Flow → Except Obstacle Flow
  | 0, flow => if flow.pending.isEmpty then .ok flow else .error (.anywhere .unsettled)
  | fuel + 1, ⟨frames, pending, isPending, height⟩ =>
    match pending with
    | [] => .ok ⟨frames, [], isPending, height⟩
    | origin :: rest =>
      let flow := ⟨frames, rest, isPending.setIfInBounds origin false, height⟩
      match course.scene.steps[origin]?, (frames[origin]?).join with
      | some step, some before =>
        match flow.visit course origin step before with
        | .ok flow => settle course fuel flow
        | .error obstacle => .error obstacle
      | _, _ => settle course fuel flow

/-- The most slots of locals that a frame can have: those that an instruction can name, and those of
the first frame and of declared ones. -/
def slotLimit (entry : Frame) (declared : List Frame) : Nat :=
  declared.foldl (fun slots frame => max slots frame.locals.length)
    (max entry.locals.length 65537)

/-- How often instructions can become pending.  A type moves up along super classes, and an array
along those of its elements, once for each number of dimensions.  Dimensions come from names: those
of the constants, of declared frames, and of super classes that are array types.  A frame has at
most two words for each instruction, and the given number of locals. -/
def budget (scene : Scene) (declared : List Frame) (slots : Nat) : Nat :=
  let typeLength (longest : Nat) (type : FrameType) : Nat :=
    match type with
    | .object name => max longest name.length
    | _ => longest
  let ofPool := scene.pool.slots.foldl (fun longest slot =>
    match slot with
    | some (.utf8 bytes) => max longest bytes.length
    | _ => longest) (max scene.head.thisClass.length scene.head.descriptor.length)
  let longest := declared.foldl (fun longest frame =>
    frame.stack.foldl typeLength (frame.locals.foldl typeLength longest)) ofPool
  let ofHierarchy := match scene.hierarchy with
    | .unknown => 0
    | .classPath path => path.foldl (fun longest entry =>
        max (max longest entry.name.length) ((entry.super.map List.length).getD 0)) 0
  let chain := scene.hierarchy.size + 2
  let dimensions := (max (max longest ofHierarchy) throwableName.length + 8) * chain
  let rank := (dimensions + 1) * (chain + 1)
  let count := scene.steps.size
  count * (1 + (2 * count + slots) * rank) + 1

end Flow

/-! ### The analysis -/

namespace Body

/-- The slots of locals that a body needs. -/
def localSlots (body : Body) (entry : Frame) (declared : List Frame) : Nat :=
  let ofSteps := body.steps.foldl (fun slots step => max slots (slotsOf step.instruction))
    entry.locals.length
  declared.foldl (fun slots frame => max slots frame.locals.length) ofSteps

/-- Frames by the index of their instruction, the last one of each; those of instructions that are
gone are left out. -/
def framesByIndex (positions : Std.HashMap Mark Nat) (frames : List (Mark × Frame)) :
    Std.HashMap Nat Frame :=
  frames.foldl (fun found (mark, frame) =>
    match positions[mark]? with
    | some index => found.insert index frame
    | none => found) ∅

/-- The frames of a body in a method. -/
def analyze (body : Body) (head : MethodHead) (pool : Pool) (hierarchy : Hierarchy) :
    Except Obstacle Analysis := do
  if body.steps.isEmpty then throw (.anywhere .noInstructions)
  let entry ← head.entryFrame.mapError Obstacle.anywhere
  let positions := body.positions
  let scene : Scene := ⟨pool, hierarchy, head, body.steps.toArray, positions⟩
  let declared ← (body.declaredFramesFrom entry).mapError Obstacle.anywhere
  let declared := framesByIndex positions declared
  let slots := body.localSlots entry declared.values
  let handlers ← body.handlerRanges scene
  let course : Course := ⟨scene, handlers, declared⟩
  let flow ← (Flow.start body.steps.length).send course 0 0 entry
  let limit := Flow.slotLimit entry declared.values
  let flow ← flow.settle course (Flow.budget scene declared.values limit)
  if 65535 < flow.height then throw (.anywhere (.stackSize flow.height))
  if 65535 < slots then throw (.anywhere (.localsSize slots))
  return ⟨flow.frames, UInt16.ofNat flow.height, UInt16.ofNat slots⟩

end Body

end ClassGraft
