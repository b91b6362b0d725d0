import ClassGraft.Frame.Flow

/-!
# Unreachable code

Instructions that cannot be reached still need frames.  Each run of them becomes a run of `nop`
that ends in `athrow`, with a throwable on the stack, and is cut out of the ranges of exception
handlers.  Marks stay, so what refers to the instructions still does.
-/

namespace ClassGraft

/-- The instructions with each run of dead ones replaced. -/
def buryDead : List (Step × Bool) → List Step
  | [] => []
  | (step, false) :: rest => step :: buryDead rest
  | (step, true) :: rest =>
    let op := if (rest.head?.map (·.2)) = some true then Opcode.nop else Opcode.athrow
    { step with instruction := .plain op } :: buryDead rest

/-- The runs of indices that are not dead among those given in order, each with the index after
it.  `start` is where a run began that goes on. -/
def liveRuns : (cells : List (Nat × Bool)) → (start : Option Nat) → (finish : Nat) →
    List (Nat × Nat)
  | [], none, _ => []
  | [], some start, finish => [(start, finish)]
  | (_, true) :: rest, none, finish => liveRuns rest none finish
  | (index, true) :: rest, some start, finish => (start, index) :: liveRuns rest none finish
  | (index, false) :: rest, start, finish => liveRuns rest (some (start.getD index)) finish

namespace Body

/-- The index of a place. -/
def indexOf? (body : Body) : Place → Option Nat
  | .at mark => body.position? mark
  | .finish => some body.steps.length

/-- The parts of a handler whose ranges have no dead instructions. -/
def liveParts (body : Body) (dead : List Bool) (handler : Handler) : List Handler :=
  match body.position? handler.start, body.indexOf? handler.stop with
  | some start, some stop =>
    let cells := ((dead.take stop).drop start).zipIdx.map fun (dead, i) => (start + i, dead)
    (liveRuns cells none stop).filterMap fun (first, after) =>
      (body.steps[first]?).map fun step =>
        { handler with
          start := step.mark
          stop := match body.steps[after]? with
            | some next => .at next.mark
            | none => .finish }
  | _, _ => []

/-- The body without its dead code. -/
def withoutDead (body : Body) (dead : List Bool) : Body :=
  { body.touch with
    steps := buryDead (body.steps.zip dead)
    handlers := body.handlers.flatMap (body.liveParts dead) }

end Body

namespace Analysis

/-- Which instructions cannot be reached. -/
def dead (analysis : Analysis) : List Bool := analysis.frames.toList.map (·.isNone)

/-- The analysis with frames for dead code that was replaced. -/
def withDead (analysis : Analysis) : Analysis :=
  { analysis with
    frames := analysis.frames.map fun frame =>
      some (frame.getD (Frame.catching [] throwableName))
    maxStack := max analysis.maxStack 1 }

end Analysis

end ClassGraft
