import ClassGraft.Code.Opcode
import ClassGraft.Frame.Type

/-!
# Effects of opcodes on the stack

What an instruction without operand bytes does to the operand stack, as a table over the opcodes.
Most take operands of known sizes and leave a value.  Some move words around without regard to
their types, and two look at more than the sizes: the load from an array of references, and the
return without a value.
-/

namespace ClassGraft

/-- What an instruction does to the stack. -/
inductive Effect where
  /-- Takes operands of the given sizes, one after the other, and leaves a value. -/
  | compute (operands : List Nat) (value : Option FrameType)
  /-- Takes the top words and leaves those at the given depths, the new top first. -/
  | shuffle (count : Nat) (depths : List Nat)
  /-- Takes an index and an array of references, and leaves a reference. -/
  | loadReference
  /-- Leaves the method without a value. -/
  | finish
  deriving DecidableEq, Repr

namespace Effect

/-- Leaves a value. -/
def push (value : FrameType) : Effect := .compute [] (some value)

/-- Takes operands. -/
def pop (operands : List Nat) : Effect := .compute operands none

/-- Takes operands of the given types, one after the other, and leaves a value. -/
def operate (operands : List FrameType) (value : FrameType) : Effect :=
  .compute (operands.map FrameType.size) (some value)

/-- An operation for each of the types of numbers. -/
def eachNumber (effect : FrameType → Effect) : List Effect :=
  [effect .int, effect .long, effect .float, effect .double]

/-- Consecutive opcodes with their effects, by the first of them. -/
def table : List (Opcode × List Effect) :=
  let binary (type : FrameType) : Effect := operate [type, type] type
  let unary (type : FrameType) : Effect := operate [type] type
  let shift (type : FrameType) : Effect := operate [.int, type] type
  let element (type : FrameType) : Effect := operate [.int, .int] type
  [ -- nop, aconst_null, and the constants of each type of numbers
    (0x00, [pop [], push .null]),
    (0x02, List.replicate 7 (push .int)),
    (0x09, List.replicate 2 (push .long)),
    (0x0b, List.replicate 3 (push .float)),
    (0x0e, List.replicate 2 (push .double)),
    -- loads from and stores to arrays
    (0x2e, [element .int, element .long, element .float, element .double, loadReference,
      element .int, element .int, element .int]),
    (0x4f, [pop [3], pop [4], pop [3], pop [4], pop [3], pop [3], pop [3], pop [3]]),
    -- pop, pop2, the six forms of dup, swap
    (0x57, [pop [1], pop [2]]),
    (0x59, [shuffle 1 [0, 0], shuffle 2 [0, 1, 0], shuffle 3 [0, 1, 2, 0], shuffle 2 [0, 1, 0, 1],
      shuffle 3 [0, 1, 2, 0, 1], shuffle 4 [0, 1, 2, 3, 0, 1], shuffle 2 [1, 0]]),
    -- addition, subtraction, multiplication, division, remainder, negation
    (0x60, eachNumber binary ++ eachNumber binary ++ eachNumber binary ++ eachNumber binary
      ++ eachNumber binary ++ eachNumber unary),
    -- shifts, then and, or, exclusive or
    (0x78, [shift .int, shift .long, shift .int, shift .long, shift .int, shift .long]),
    (0x7e, [binary .int, binary .long, binary .int, binary .long, binary .int, binary .long]),
    -- conversions and comparisons
    (0x85, [operate [.int] .long, operate [.int] .float, operate [.int] .double,
      operate [.long] .int, operate [.long] .float, operate [.long] .double,
      operate [.float] .int, operate [.float] .long, operate [.float] .double,
      operate [.double] .int, operate [.double] .long, operate [.double] .float]),
    (0x91, List.replicate 3 (unary .int)),
    (0x94, [operate [.long, .long] .int, operate [.float, .float] .int,
      operate [.float, .float] .int, operate [.double, .double] .int,
      operate [.double, .double] .int]),
    -- returns
    (0xac, [pop [1], pop [2], pop [1], pop [2], pop [1], finish]),
    -- arraylength and athrow, monitorenter and monitorexit
    (0xbe, [operate [.null] .int, pop [1]]),
    (0xc2, [pop [1], pop [1]])]

/-- The effects by opcode. -/
def all : Array (Option Effect) :=
  table.foldl (fun effects (first, row) =>
    row.zipIdx.foldl
      (fun effects (effect, i) => effects.setIfInBounds (first.toNat + i) (some effect)) effects)
    (Array.replicate 256 none)

end Effect

/-- What an instruction without operand bytes does to the stack. -/
def Opcode.effect? (op : Opcode) : Option Effect := (Effect.all[op.toNat]?).join

/-- The table covers the opcodes without operand bytes and no others. -/
theorem Opcode.isSome_effect? : ∀ n : Fin 256,
    (Opcode.effect? (UInt8.ofNat n.val)).isSome = Opcode.isPlain (UInt8.ofNat n.val) := by
  -- the table is built once, not once for each opcode
  have hall : Effect.all.toList.map Option.isSome =
      (List.range 256).map fun n => Opcode.isPlain (UInt8.ofNat n) := by decide +kernel
  intro n
  have hat := congrArg (·[n.val]?) hall
  have htoNat : (UInt8.ofNat n.val).toNat = n.val := Nat.mod_eq_of_lt n.isLt
  simp only [List.getElem?_map, List.getElem?_range n.isLt, Array.getElem?_toList,
    Option.map_some] at hat
  obtain ⟨effect, heffect, hsome⟩ := Option.map_eq_some_iff.mp hat
  rw [effect?, htoNat, heffect, ← hsome]
  rfl

/-- No two rows of the table overlap: an opcode has the effect that its row gives. -/
theorem Opcode.effect?_of_row {op first : Opcode} {row : List Effect} {effect : Effect} {k i : Nat}
    (hrow : Effect.table[k]? = some (first, row)) (heffect : row[i]? = some effect)
    (hop : op.toNat = first.toNat + i) : op.effect? = some effect := by
  have hall : Effect.table.all (fun (first, row) => row.zipIdx.all fun (effect, i) =>
      Effect.all[first.toNat + i]? == some (some effect)) = true := by decide +kernel
  have hentries := List.all_eq_true.mp hall _ (List.mem_of_getElem? hrow)
  have hin : (effect, i) ∈ row.zipIdx := List.mem_zipIdx_iff_getElem?.mpr heffect
  have hat := List.all_eq_true.mp hentries _ hin
  rw [effect?, hop, eq_of_beq hat]
  rfl

theorem Opcode.effect?_returnVoid : returnVoid.effect? = some .finish :=
  effect?_of_row (k := 15) (i := 5) rfl rfl rfl

end ClassGraft
