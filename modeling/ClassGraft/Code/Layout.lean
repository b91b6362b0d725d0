import Std.Data.HashMap
import Std.Data.HashSet
import ClassGraft.Code.Body
import ClassGraft.Pool.Lookup

/-!
# Laying out code

The bytes of a list of instructions.  A jump stores the distance to its target in two bytes, or in
four if it does not fit into two.  A jump on a condition only has two; if its target is farther it
becomes the jump on the opposite condition over a long `goto`.

The length of a jump moves what comes after it, and thereby changes distances.  So a draft is
written in which the jumps back have the form that their known distance needs, and the jumps ahead
are short unless an earlier draft showed that they cannot be.  If a distance then does not fit, its
jump loses the right to be short, and a new draft is written.  The set of jumps that may still be
short shrinks with each draft, so this ends (`Layout.ofSteps`).
-/

namespace ClassGraft

/-- Whether the constant at an index takes two words on the operand stack. -/
def Pool.isWideConstant (pool : Pool) (index : UInt16) : Bool :=
  match pool.get index with
  | some (.long _) | some (.double _) => true
  | some (.dynamic .value _ _) =>
    match pool.dynamic index with
    | some (_, descriptor) => descriptor == Bytes.ofAscii "J" || descriptor == Bytes.ofAscii "D"
    | none => false
  | _ => false

/-! ### Pieces of code -/

/-- A part of code whose positions are being decided.  Only jumps whose index is in `narrow` may be
short. -/
inductive Piece (narrow : Std.HashSet Nat) where
  | bytes (bytes : Bytes)
  /-- The distance from an origin to a target, in two bytes. -/
  | half (origin : Nat) (target : Mark) (jump : { index // index ∈ narrow })
  /-- The distance from an origin to a target, in four bytes. -/
  | word (origin : Nat) (target : Mark)

/-- The number of bytes of the piece. -/
def Piece.size {narrow : Std.HashSet Nat} : Piece narrow → Nat
  | bytes content => content.length
  | half _ _ _ => 2
  | word _ _ => 4

/-- How an instruction is written. -/
structure Form (narrow : Std.HashSet Nat) where
  pieces : List (Piece narrow)
  /-- Whether a jump over a long `goto` stands for the instruction, so that the next one becomes a
  target. -/
  bypasses : Bool := false

/-- Where an instruction is written. -/
structure Site where
  /-- Its index in the list. -/
  index : Nat
  position : Nat
  /-- The positions of the instructions up to this one. -/
  placed : Std.HashMap Mark Nat

/-- Whether a distance fits into two bytes. -/
def isShortDistance (distance : Int) : Bool := -32768 ≤ distance && distance ≤ 32767

/-- The distance from one position to another. -/
def distance (origin target : Nat) : Int := (target : Int) - (origin : Int)

/-- A distance in two bytes. -/
def shortDistance (distance : Int) : Bytes := Bytes.ofInt16 (Int16.ofInt distance)

/-- A distance in four bytes. -/
def longDistance (distance : Int) : Bytes := Bytes.ofInt32 (Int32.ofInt distance)

namespace Site

variable {narrow : Std.HashSet Nat} (site : Site)

/-- A jump without a condition, which has a short and a long form. -/
def jump (short long : Opcode) (target : Mark) : List (Piece narrow) :=
  match site.placed[target]? with
  | some position =>
    let distance := distance site.position position
    if isShortDistance distance then [.bytes (short :: shortDistance distance)]
    else [.bytes (long :: longDistance distance)]
  | none =>
    if h : site.index ∈ narrow then [.bytes [short], .half site.position target ⟨site.index, h⟩]
    else [.bytes [long], .word site.position target]

/-- The jump on the opposite condition over a long `goto`. -/
def bypass (inverse : Opcode) : Bytes := inverse :: shortDistance 8 ++ [Opcode.gotoWide]

/-- The position of the long `goto` in a jump with a bypass. -/
def bypassed : Nat := site.position + 3

/-- A jump on a condition. -/
def branch (op inverse : Opcode) (target : Mark) : Form narrow :=
  match site.placed[target]? with
  | some position =>
    let short := distance site.position position
    if isShortDistance short then ⟨[.bytes (op :: shortDistance short)], false⟩
    else
      ⟨[.bytes (bypass inverse ++ longDistance (distance site.bypassed position))], true⟩
  | none =>
    if h : site.index ∈ narrow then
      ⟨[.bytes [op], .half site.position target ⟨site.index, h⟩], false⟩
    else ⟨[.bytes (bypass inverse), .word site.bypassed target], true⟩

/-- The distance to a target of a switch. -/
def case (target : Mark) : Piece narrow :=
  match site.placed[target]? with
  | some position => .bytes (longDistance (distance site.position position))
  | none => .word site.position target

/-- The opcode of a switch, and zeros up to the next multiple of four. -/
def switchStart (op : Opcode) : Piece narrow :=
  .bytes (op :: List.replicate (3 - site.position % 4) 0)

end Site

/-! ### Forms of instructions -/

/-- A load of a constant. -/
def constantBytes (pool : Pool) (index : UInt16) : Bytes :=
  if pool.isWideConstant index then Opcode.ldcDouble :: Bytes.ofUInt16 index
  else if index < 256 then [Opcode.ldc, index.toUInt8]
  else Opcode.ldcWide :: Bytes.ofUInt16 index

/-- A load or a store of a local variable, or a return to the address in it. -/
def accessBytes (op : Opcode) (slot : UInt16) : Bytes :=
  if op.isLoad && slot < 4 then [Opcode.iload0 + (op - Opcode.iload) * 4 + slot.toUInt8]
  else if op.isStore && slot < 4 then [Opcode.istore0 + (op - Opcode.istore) * 4 + slot.toUInt8]
  else if slot < 256 then [op, slot.toUInt8]
  else Opcode.wide :: op :: Bytes.ofUInt16 slot

/-- An addition of a number to a local variable. -/
def incrementBytes (slot : UInt16) (delta : Int16) : Bytes :=
  if slot < 256 && -128 ≤ delta && delta ≤ 127 then
    Opcode.iinc :: slot.toUInt8 :: Bytes.ofInt8 delta.toInt8
  else Opcode.wide :: Opcode.iinc :: Bytes.ofUInt16 slot ++ Bytes.ofInt16 delta

/-- Whether the keys ascend. -/
def keysAscend : List (Int32 × Mark) → Bool
  | first :: second :: rest => first.1 < second.1 && keysAscend (second :: rest)
  | _ => true

namespace Instruction

variable {narrow : Std.HashSet Nat}

/-- How the instruction is written at a site. -/
def form (pool : Pool) (site : Site) :
    Instruction Mark → Except EncodingFault (Form narrow)
  | plain op => .ok ⟨[.bytes [op]], false⟩
  | bytePush value => .ok ⟨[.bytes (Opcode.bipush :: Bytes.ofInt8 value)], false⟩
  | shortPush value => .ok ⟨[.bytes (Opcode.sipush :: Bytes.ofInt16 value)], false⟩
  | constant index => .ok ⟨[.bytes (constantBytes pool index)], false⟩
  | access op slot => .ok ⟨[.bytes (accessBytes op slot)], false⟩
  | increment slot delta => .ok ⟨[.bytes (incrementBytes slot delta)], false⟩
  | jump op target =>
    if op == Opcode.goto then .ok ⟨site.jump Opcode.goto Opcode.gotoWide target, false⟩
    else if op == Opcode.jsr then .ok ⟨site.jump Opcode.jsr Opcode.jsrWide target, false⟩
    else
      match op.inverse? with
      | some inverse => .ok (site.branch op inverse target)
      | none => .error (.notJump op)
  | tableSwitch otherwise low high targets =>
    let cases := (high.toInt - low.toInt + 1).toNat
    if high < low then .error (.switchBounds low high)
    else if targets.length ≠ cases then .error (.switchTargets cases targets.length)
    else
      .ok ⟨site.switchStart Opcode.tableSwitch :: site.case otherwise
        :: .bytes (Bytes.ofInt32 low ++ Bytes.ofInt32 high) :: targets.map site.case, false⟩
  | lookupSwitch otherwise pairs =>
    if !keysAscend pairs then .error .unsortedKeys
    else if 2147483647 < pairs.length then .error (.tooManyPairs pairs.length)
    else
      .ok ⟨site.switchStart Opcode.lookupSwitch :: site.case otherwise
        :: .bytes (Bytes.ofInt32 (Int32.ofNat pairs.length))
        :: pairs.flatMap (fun (key, target) => [.bytes (Bytes.ofInt32 key), site.case target]),
        false⟩
  | field op index | invoke op index | classOp op index =>
    .ok ⟨[.bytes (op :: Bytes.ofUInt16 index)], false⟩
  | invokeInterface index count =>
    .ok ⟨[.bytes (Opcode.invokeInterface :: Bytes.ofUInt16 index ++ [count, 0])], false⟩
  | invokeDynamic index =>
    .ok ⟨[.bytes (Opcode.invokeDynamic :: Bytes.ofUInt16 index ++ [0, 0])], false⟩
  | newArray element => .ok ⟨[.bytes [Opcode.newArray, element]], false⟩
  | newMultiArray index dimensions =>
    .ok ⟨[.bytes (Opcode.newMultiArray :: Bytes.ofUInt16 index ++ [dimensions])], false⟩

end Instruction

/-! ### Drafts -/

/-- The instructions written so far. -/
structure Draft (narrow : Std.HashSet Nat) where
  size : Nat
  placed : Std.HashMap Mark Nat
  /-- The pieces, the last one first. -/
  pieces : List (Piece narrow)
  /-- The instructions that stand after a jump with a bypass, the last one first. -/
  landings : List Mark

namespace Draft

variable {narrow : Std.HashSet Nat}

/-- The draft without instructions. -/
def empty : Draft narrow := ⟨0, ∅, [], []⟩

/-- The draft with more instructions, the first of which has the given index. -/
def extend (pool : Pool) : (index : Nat) → List Step → Draft narrow →
    Except ClassFault (Draft narrow)
  | _, [], draft => .ok draft
  | index, step :: rest, ⟨size, placed, pieces, landings⟩ =>
    if 65535 < size then .error (.unencodable (.codeTooLong size))
    else
      let placed := placed.insert step.mark size
      match (step.instruction.form pool ⟨index, size, placed⟩ :
          Except EncodingFault (Form narrow)) with
      | .error cause => .error (.unencodable cause)
      | .ok form =>
        let landings :=
          if form.bypasses then (rest.head?.map (·.mark)).toList ++ landings else landings
        extend pool (index + 1) rest
          ⟨(form.pieces.map Piece.size).foldl (· + ·) size, placed,
            form.pieces.reverse ++ pieces, landings⟩

/-- What came of putting distances into a draft: the code, or a jump that cannot be short. -/
inductive Outcome (narrow : Std.HashSet Nat) where
  | code (bytes : Bytes)
  | tooFar (jump : { index // index ∈ narrow })

/-- The position of a target. -/
def find (placed : Std.HashMap Mark Nat) (target : Mark) : Except ClassFault Nat :=
  match placed[target]? with
  | some position => .ok position
  | none => .error (.unencodable (.noInstruction target))

/-- Puts the distances into pieces.  What was written before is in `written`, the last byte
first. -/
def resolve (placed : Std.HashMap Mark Nat) : (pieces : List (Piece narrow)) →
    (written : Bytes) → Except ClassFault (Outcome narrow)
  | [], written => .ok (.code written.reverse)
  | .bytes bytes :: rest, written => resolve placed rest (bytes.reverse ++ written)
  | .word origin target :: rest, written =>
    match find placed target with
    | .error fault => .error fault
    | .ok position =>
      resolve placed rest ((longDistance (distance origin position)).reverse ++ written)
  | .half origin target jump :: rest, written =>
    match find placed target with
    | .error fault => .error fault
    | .ok position =>
      let distance := distance origin position
      if isShortDistance distance then
        resolve placed rest ((shortDistance distance).reverse ++ written)
      else .ok (.tooFar jump)

end Draft

/-! ### Layouts -/

/-- The code of a list of instructions. -/
structure Layout where
  code : Bytes
  /-- The position of each instruction. -/
  placed : Std.HashMap Mark Nat
  /-- The instructions that a jump with a bypass leads to without naming them, in order. -/
  landings : List Mark

namespace Layout

/-- The layout of instructions in which only the jumps in `narrow` may be short. -/
def within (pool : Pool) (steps : List Step) (narrow : Std.HashSet Nat) :
    Except ClassFault Layout :=
  match Draft.extend pool 0 steps (Draft.empty : Draft narrow) with
  | .error fault => .error fault
  | .ok draft =>
    if draft.size = 0 ∨ 65535 < draft.size then
      .error (.unencodable (.codeLength draft.size))
    else
      match Draft.resolve draft.placed draft.pieces.reverse [] with
      | .error fault => .error fault
      | .ok (.code code) => .ok ⟨code, draft.placed, draft.landings.reverse⟩
      | .ok (.tooFar jump) => within pool steps (narrow.erase jump.val)
  termination_by narrow.size
  decreasing_by
    have hm : jump.val ∈ narrow := jump.property
    have hs : narrow.size ≠ 0 := by
      intro h
      have he : narrow.isEmpty = true := by simp [Std.HashSet.isEmpty_eq_size_eq_zero, h]
      exact Std.HashSet.isEmpty_iff_forall_not_mem.1 he _ hm
    rw [Std.HashSet.size_erase, if_pos hm]
    omega

/-- The indices of the jumps. -/
def jumps (steps : List Step) : Std.HashSet Nat :=
  steps.zipIdx.foldl (fun found (step, index) =>
    match step.instruction with
    | .jump _ _ => found.insert index
    | _ => found) ∅

/-- The layout of instructions, with jumps as short as they can be. -/
def ofSteps (pool : Pool) (steps : List Step) : Except ClassFault Layout :=
  within pool steps (jumps steps)

/-- The offset of an instruction. -/
def offset? (layout : Layout) (mark : Mark) : Option Nat := layout.placed[mark]?

/-- The offset of an instruction, where there must be one. -/
def offset (layout : Layout) (mark : Mark) : Except ClassFault Nat :=
  Draft.find layout.placed mark

/-- The offset of a place. -/
def offsetOf (layout : Layout) : Place → Except ClassFault Nat
  | .at mark => layout.offset mark
  | .finish => .ok layout.code.length

end Layout

end ClassGraft
