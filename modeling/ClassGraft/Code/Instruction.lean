import ClassGraft.Code.Mark
import ClassGraft.Code.Opcode

/-!
# Instructions

An instruction with its operands; constants are given by their index in the pool.  The type of jump
targets is a parameter: offsets while the bytes of a method are read, marks in a method body.  Forms
that differ only in their length are one instruction here.
-/

namespace ClassGraft

/-- An instruction whose jumps lead to targets of type `τ`. -/
inductive Instruction (τ : Type) where
  /-- An instruction without operands. -/
  | plain (op : Opcode)
  | bytePush (value : Int8)
  | shortPush (value : Int16)
  /-- Loads a constant. -/
  | constant (index : UInt16)
  /-- Loads or stores a local variable, or returns to the address in it. -/
  | access (op : Opcode) (slot : UInt16)
  | increment (slot : UInt16) (delta : Int16)
  /-- A jump on a condition, without one, or to a subroutine. -/
  | jump (op : Opcode) (target : τ)
  | tableSwitch (otherwise : τ) (low high : Int32) (targets : List τ)
  | lookupSwitch (otherwise : τ) (pairs : List (Int32 × τ))
  | field (op : Opcode) (index : UInt16)
  /-- A call other than of an interface method or a computed call site. -/
  | invoke (op : Opcode) (index : UInt16)
  | invokeInterface (index : UInt16) (count : UInt8)
  | invokeDynamic (index : UInt16)
  /-- Makes an object or an array of a class, or checks for the class. -/
  | classOp (op : Opcode) (index : UInt16)
  | newArray (element : UInt8)
  | newMultiArray (index : UInt16) (dimensions : UInt8)
  deriving DecidableEq, Repr, Inhabited

namespace Instruction

variable {τ σ : Type}

/-- The opcode; loads and stores give the one with an operand. -/
def opcode : Instruction τ → Opcode
  | plain op => op
  | bytePush _ => Opcode.bipush
  | shortPush _ => Opcode.sipush
  | constant _ => Opcode.ldc
  | access op _ => op
  | increment _ _ => Opcode.iinc
  | jump op _ => op
  | tableSwitch _ _ _ _ => Opcode.tableSwitch
  | lookupSwitch _ _ => Opcode.lookupSwitch
  | field op _ => op
  | invoke op _ => op
  | invokeInterface _ _ => Opcode.invokeInterface
  | invokeDynamic _ => Opcode.invokeDynamic
  | classOp op _ => op
  | newArray _ => Opcode.newArray
  | newMultiArray _ _ => Opcode.newMultiArray

/-- Whether execution may go on with the next instruction. -/
def fallsThrough (instruction : Instruction τ) : Bool := !instruction.opcode.isUnconditional

/-- Whether the instruction leaves the method. -/
def isReturn : Instruction τ → Bool
  | plain op => op.isReturn
  | _ => false

/-- Where the instruction may jump to. -/
def targets : Instruction τ → List τ
  | jump _ target => [target]
  | tableSwitch otherwise _ _ targets => otherwise :: targets
  | lookupSwitch otherwise pairs => otherwise :: pairs.map (·.2)
  | _ => []

/-- The instruction with other targets. -/
def mapTargets (f : τ → σ) : Instruction τ → Instruction σ
  | plain op => plain op
  | bytePush value => bytePush value
  | shortPush value => shortPush value
  | constant index => constant index
  | access op slot => access op slot
  | increment slot delta => increment slot delta
  | jump op target => jump op (f target)
  | tableSwitch otherwise low high targets => tableSwitch (f otherwise) low high (targets.map f)
  | lookupSwitch otherwise pairs =>
    lookupSwitch (f otherwise) (pairs.map fun (key, target) => (key, f target))
  | field op index => field op index
  | invoke op index => invoke op index
  | invokeInterface index count => invokeInterface index count
  | invokeDynamic index => invokeDynamic index
  | classOp op index => classOp op index
  | newArray element => newArray element
  | newMultiArray index dimensions => newMultiArray index dimensions

/-- The constant that the instruction refers to. -/
def constantIndex? : Instruction τ → Option UInt16
  | constant index | field _ index | invoke _ index | invokeInterface index _
  | invokeDynamic index | classOp _ index | newMultiArray index _ => some index
  | _ => none

theorem targets_mapTargets (f : τ → σ) (instruction : Instruction τ) :
    (instruction.mapTargets f).targets = instruction.targets.map f := by
  cases instruction <;> simp [mapTargets, targets]

/-- Only what happens to the targets matters. -/
theorem mapTargets_congr {f g : τ → σ} {instruction : Instruction τ}
    (h : ∀ target ∈ instruction.targets, f target = g target) :
    instruction.mapTargets f = instruction.mapTargets g := by
  cases instruction with
  | jump op target => simp [mapTargets, h target (List.mem_singleton.mpr rfl)]
  | tableSwitch otherwise low high targets =>
    obtain ⟨hotherwise, htargets⟩ := List.forall_mem_cons.mp h
    simp only [mapTargets, hotherwise, List.map_congr_left htargets]
  | lookupSwitch otherwise pairs =>
    obtain ⟨hotherwise, hpairs⟩ := List.forall_mem_cons.mp h
    simp only [mapTargets, hotherwise, lookupSwitch.injEq, true_and]
    refine List.map_congr_left fun pair hp => ?_
    rw [hpairs pair.2 (List.mem_map_of_mem hp)]
  | _ => rfl

theorem mapTargets_mapTargets {ρ : Type} (f : τ → σ) (g : σ → ρ) (instruction : Instruction τ) :
    (instruction.mapTargets f).mapTargets g =
      instruction.mapTargets fun target => g (f target) := by
  cases instruction <;> simp [mapTargets]

theorem mapTargets_id (instruction : Instruction τ) : instruction.mapTargets id = instruction := by
  cases instruction <;> simp [mapTargets]

end Instruction

end ClassGraft
