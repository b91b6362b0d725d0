/-!
# Marks

A mark names one instruction of a method body and stays with it, wherever the instruction moves.
Jumps, exception ranges and the tables of a body refer to instructions by their marks.
-/

namespace ClassGraft

/-- The name of an instruction within a method body.  A number is any natural one: a counter of 32
bits would start over after 2^32 marks of one body, which no class file and no set of templates that
fits into memory needs. -/
structure Mark where
  number : Nat
  deriving DecidableEq, Repr, Hashable, Inhabited

namespace Mark

/-- A mark as listings show it. -/
def label (mark : Mark) : String := s!"L{mark.number}"

/-- A mark as messages about types show it. -/
def record (mark : Mark) : String := s!"InsnId({mark.number})"

end Mark

/-- A place between instructions: before one of them, or after the last. -/
inductive Place where
  | at (mark : Mark)
  | finish
  deriving DecidableEq, Repr, Hashable

/-- A place as listings show it. -/
def Place.record : Place → String
  | .at mark => s!"At({mark.record})"
  | .finish => "End"

end ClassGraft
